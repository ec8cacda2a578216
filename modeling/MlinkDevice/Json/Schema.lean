import MlinkDevice.Json.Value

/-!
# JSON schemas of an object

The part of JSON Schema that describes the arguments of a tool: the names that are
required, and for each declared property a type and bounds. How a name is looked up
in the arguments is a parameter.
-/

open MlinkDevice.CStr

namespace MlinkDevice.Json

/-- The value is of the JSON type with that name. An integer is a number without fraction. -/
def HasType (name : CStr) (value : CJson) : Prop :=
  (name = lit "boolean" ∧ ∃ b, value = .bool b) ∨
  (name = lit "integer" ∧ ∃ i : ℤ, value = .number i) ∨
  (name = lit "string" ∧ ∃ s, value = .string s)

structure MeetsProperty (schema value : CJson) : Prop where
  type : ∃ name, schema.member (lit "type") = some (.string name) ∧ HasType name value
  minimum : ∀ m q, schema.member (lit "minimum") = some (.number m) → value = .number q → m ≤ q
  maximum : ∀ m q, schema.member (lit "maximum") = some (.number m) → value = .number q → q ≤ m

def stringItem : CJson → Option CStr
  | .string s => some s
  | _ => none

def requiredNames (schema : CJson) : List CStr :=
  match schema.member (lit "required") with
  | some (.array names) => names.filterMap stringItem
  | _ => []

def propertySchemas (schema : CJson) : List (CStr × CJson) :=
  match schema.member (lit "properties") with
  | some (.object ms) => ms
  | _ => []

/-- An object meets the schema, where `find` looks up its members. -/
structure MeetsSchema (schema : CJson) (find : CStr → Option CJson) : Prop where
  required : ∀ name ∈ requiredNames schema, find name ≠ none
  properties : ∀ m ∈ propertySchemas schema, ∀ value, find m.1 = some value →
    MeetsProperty m.2 value

theorem MeetsSchema.congr {schema : CJson} {find find' : CStr → Option CJson}
    (h : MeetsSchema schema find)
    (hrequired : ∀ name ∈ requiredNames schema, find name = find' name)
    (hproperties : ∀ m ∈ propertySchemas schema, find m.1 = find' m.1) :
    MeetsSchema schema find' where
  required name hname := hrequired name hname ▸ h.required name hname
  properties m hm value hvalue := h.properties m hm value ((hproperties m hm).trans hvalue)

end MlinkDevice.Json
