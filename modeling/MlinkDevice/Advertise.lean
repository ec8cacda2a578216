import MlinkDevice.Json.Schema
import MlinkDevice.Tool

/-!
# The advertised schema

The `inputSchema` that `mcp_tool_to_json` gives a tool, read back member by member.
-/

open MlinkDevice.CStr MlinkDevice.Json

namespace MlinkDevice

variable {W : Type}

/-! ## The schema of a tool -/

def schemaOf (json : CJson) : CJson := (json.member (lit "inputSchema")).getD .null

def inputSchema (tool : McpTool W) : CJson := schemaOf tool.json

theorem propertySchemas_eq (tool : McpTool W) : propertySchemas (inputSchema tool) =
    tool.properties.flatMap fun p =>
      (p.name.map fun name => (name, CJson.object (propertyMembers p))).toList :=
  schemaParts_properties tool.properties

theorem mem_propertySchemas {tool : McpTool W} {m : CStr × CJson} :
    m ∈ propertySchemas (inputSchema tool) ↔
      ∃ p ∈ tool.properties, p.name = some m.1 ∧ m.2 = .object (propertyMembers p) := by
  rw [propertySchemas_eq]
  obtain ⟨name, schema⟩ := m
  simp only [List.mem_flatMap, Option.mem_toList, Option.map_eq_some_iff, Prod.mk.injEq]
  constructor
  · rintro ⟨p, hp, n, hname, rfl, rfl⟩
    exact ⟨p, hp, hname, rfl⟩
  · rintro ⟨p, hp, hname, rfl⟩
    exact ⟨p, hp, name, hname, rfl, rfl⟩

def undefaulted (tool : McpTool W) : List CStr :=
  (tool.properties.filter (!·.hasDefault)).filterMap (·.name)

theorem inputSchema_required (tool : McpTool W) :
    (inputSchema tool).member (lit "required") =
      if tool.properties.any (!·.hasDefault) then some (.array ((undefaulted tool).map .string))
      else none := by
  have hstrings : ∀ properties : List McpProperty,
      (properties.flatMap fun p => (p.name.map CJson.string).toList) =
        (properties.filterMap (·.name)).map .string := by
    intro properties
    induction properties with
    | nil => rfl
    | cons p rest ih => cases hname : p.name <;> simp [hname, ih]
  have hschema : inputSchema tool = .object ([
      (lit "type", .string (lit "object")),
      (lit "properties", .object (schemaParts tool.properties).properties)] ++
      if tool.properties.any (!·.hasDefault) then
        [(lit "required", .array (schemaParts tool.properties).required)] else []) := rfl
  rw [hschema, undefaulted, ← hstrings]
  split_ifs <;> rfl

theorem requiredNames_eq (tool : McpTool W) : requiredNames (inputSchema tool) = undefaulted tool := by
  unfold requiredNames
  rw [inputSchema_required]
  split_ifs with hany
  · have hitem : ∀ names : List CStr, (names.map CJson.string).filterMap stringItem = names := by
      intro names
      induction names with
      | nil => rfl
      | cons name rest ih => simpa [stringItem] using ih
    exact hitem _
  · unfold undefaulted
    rw [List.filter_eq_nil_iff.mpr (by simpa using hany)]
    rfl

theorem mem_requiredNames {tool : McpTool W} {name : CStr} :
    name ∈ requiredNames (inputSchema tool) ↔
      ∃ p ∈ tool.properties, p.name = some name ∧ p.hasDefault = false := by
  rw [requiredNames_eq, undefaulted, List.mem_filterMap]
  simp only [List.mem_filter, Bool.not_eq_true', and_assoc]
  exact exists_congr fun p => and_congr_right fun _ => and_comm

/-! ## One property -/

def typeName : McpPropertyType → CStr
  | .boolean => lit "boolean"
  | .integer => lit "integer"
  | .string => lit "string"

theorem propertyMembers_type (property : McpProperty) :
    (CJson.object (propertyMembers property)).member (lit "type") =
      some (.string (typeName property.type)) := by
  unfold propertyMembers McpProperty.type
  cases property.value <;> rfl

theorem propertyMembers_minimum (property : McpProperty) :
    (CJson.object (propertyMembers property)).member (lit "minimum") =
      if property.type = .integer ∧ property.hasMin then some (.number property.minValue.toInt)
      else none := by
  obtain ⟨name, value, hasDefault, hasMin, hasMax, minValue, maxValue⟩ := property
  cases value with
  | boolean b => cases hasDefault <;> rfl
  | integer v => cases hasDefault <;> cases hasMin <;> cases hasMax <;> rfl
  | string s => cases hasDefault <;> cases s <;> rfl

theorem propertyMembers_maximum (property : McpProperty) :
    (CJson.object (propertyMembers property)).member (lit "maximum") =
      if property.type = .integer ∧ property.hasMax then some (.number property.maxValue.toInt)
      else none := by
  obtain ⟨name, value, hasDefault, hasMin, hasMax, minValue, maxValue⟩ := property
  cases value with
  | boolean b => cases hasDefault <;> rfl
  | integer v => cases hasDefault <;> cases hasMin <;> cases hasMax <;> rfl
  | string s => cases hasDefault <;> cases s <;> rfl

def Advertised (property : McpProperty) (value : CJson) : Prop :=
  match property.value, value with
  | .boolean _, .bool _ => True
  | .integer _, .number q => (∃ i : ℤ, q = i) ∧
    (property.hasMin → (property.minValue.toInt : ℚ) ≤ q) ∧
    (property.hasMax → q ≤ property.maxValue.toInt)
  | .string _, .string _ => True
  | _, _ => False

theorem hasType_iff (type : McpPropertyType) (value : CJson) :
    HasType (typeName type) value ↔ match type, value with
      | .boolean, .bool _ => True
      | .integer, .number q => ∃ i : ℤ, q = i
      | .string, .string _ => True
      | _, _ => False := by
  have hbi : lit "boolean" ≠ lit "integer" := by decide
  have hbs : lit "boolean" ≠ lit "string" := by decide
  have his : lit "integer" ≠ lit "string" := by decide
  cases type <;> cases value <;>
    simp [HasType, typeName, hbi, hbs, his, hbi.symm, hbs.symm, his.symm]

theorem meetsProperty_iff (property : McpProperty) (value : CJson) :
    MeetsProperty (.object (propertyMembers property)) value ↔ Advertised property value := by
  have htype : (∃ name, (CJson.object (propertyMembers property)).member (lit "type") =
      some (.string name) ∧ HasType name value) ↔ HasType (typeName property.type) value := by
    rw [propertyMembers_type]
    simp
  have hparts : MeetsProperty (.object (propertyMembers property)) value ↔
      HasType (typeName property.type) value ∧
      (property.type = .integer → property.hasMin → ∀ q, value = .number q →
        (property.minValue.toInt : ℚ) ≤ q) ∧
      (property.type = .integer → property.hasMax → ∀ q, value = .number q →
        q ≤ (property.maxValue.toInt : ℚ)) := by
    constructor
    · rintro ⟨htype', hmin, hmax⟩
      rw [propertyMembers_minimum] at hmin
      rw [propertyMembers_maximum] at hmax
      exact ⟨htype.mp htype', fun ht hm q hq => hmin _ q (if_pos ⟨ht, hm⟩) hq,
        fun ht hm q hq => hmax _ q (if_pos ⟨ht, hm⟩) hq⟩
    · rintro ⟨htype', hmin, hmax⟩
      refine ⟨htype.mpr htype', fun m q hm hq => ?_, fun m q hm hq => ?_⟩
      · rw [propertyMembers_minimum] at hm
        split_ifs at hm with hcond
        obtain rfl : (property.minValue.toInt : ℚ) = m := by simpa using hm
        exact hmin hcond.1 hcond.2 q hq
      · rw [propertyMembers_maximum] at hm
        split_ifs at hm with hcond
        obtain rfl : (property.maxValue.toInt : ℚ) = m := by simpa using hm
        exact hmax hcond.1 hcond.2 q hq
  rw [hparts, hasType_iff]
  obtain ⟨name, live, hasDefault, hasMin, hasMax, minValue, maxValue⟩ := property
  cases live <;> cases value <;> simp [Advertised, McpProperty.type]

end MlinkDevice
