import MlinkDevice.Advertise
import MlinkDevice.Listing

/-!
# What a client learns about a tool

A decoder for the JSON of a tool. It gets back every field that the tool was created with,
from the text of `mcp_tool_to_json` and from an entry of a `tools/list` reply.
-/

open MlinkDevice.CStr MlinkDevice.Json

namespace MlinkDevice

variable {W : Type} {L : CJsonLib}

/-! ## Property lists -/

def propertyList (calls : List AddCall) : List McpProperty := calls.foldl AddCall.run []

/-- A property with a name, and with a string where it has a default of type string. -/
def McpProperty.Declared (property : McpProperty) : Prop :=
  property.name ≠ none ∧ (property.hasDefault = true → property.value ≠ .string none)

theorem AddCall.run_declared {list : List McpProperty} (h : ∀ p ∈ list, p.Declared)
    (call : AddCall) : ∀ p ∈ call.run list, p.Declared := by
  have hadd : ∀ property : McpProperty, property.Declared →
      ∀ p ∈ (mcpPropertyListAdd list property).2, p.Declared := by
    intro property hproperty p hp
    unfold mcpPropertyListAdd at hp
    rw [propertyCopyFunc_eq, List.mem_append, List.mem_singleton] at hp
    rcases hp with hp | rfl
    · exact h p hp
    · exact hproperty
  cases call with
  | bool name hasDefault defaultValue =>
    cases name with
    | none => exact h
    | some name => exact hadd _ ⟨Option.some_ne_none name, by simp⟩
  | int name hasDefault defaultValue hasMin minValue hasMax maxValue =>
    cases name with
    | none => exact h
    | some name => exact hadd _ ⟨Option.some_ne_none name, by simp⟩
  | string name defaultValue =>
    cases name with
    | none => exact h
    | some name =>
      refine hadd _ ⟨Option.some_ne_none name, ?_⟩
      cases defaultValue <;> simp [utilsStrdup]

theorem propertyList_declared (calls : List AddCall) : ∀ p ∈ propertyList calls, p.Declared := by
  have hrun : ∀ list : List McpProperty, (∀ p ∈ list, p.Declared) →
      ∀ p ∈ calls.foldl AddCall.run list, p.Declared := by
    induction calls with
    | nil => exact fun _ h => h
    | cons call rest ih => exact fun list h => ih _ (AddCall.run_declared h call)
  exact hrun [] (by simp)

/-! ## Descriptions -/

structure DescribedProperty where
  name : CStr
  type : McpPropertyType
  default : Option McpPropertyValue
  minimum : Option Int32
  maximum : Option Int32
deriving DecidableEq

structure Description where
  name : CStr
  description : CStr
  userOnly : Bool
  properties : List DescribedProperty
deriving DecidableEq

def describeProperty (property : McpProperty) : Option DescribedProperty :=
  property.name.map fun name =>
    { name
      type := property.type
      default := if property.hasDefault then some property.value else none
      minimum := if property.type = .integer ∧ property.hasMin then some property.minValue else none
      maximum := if property.type = .integer ∧ property.hasMax then some property.maxValue else none }

def describe (tool : McpTool W) : Description where
  name := tool.name
  description := tool.description
  userOnly := tool.userOnly
  properties := tool.properties.filterMap describeProperty

/-! ## The decoder -/

def decodeType (name : CStr) : Option McpPropertyType :=
  if name = lit "boolean" then some .boolean
  else if name = lit "integer" then some .integer
  else if name = lit "string" then some .string
  else none

def decodeValue : CJson → Option McpPropertyValue
  | .bool b => some (.boolean b)
  | .number q => some (.integer (CJson.valueint q))
  | .string s => some (.string (some s))
  | _ => none

def decodeInt : CJson → Option Int32
  | .number q => some (CJson.valueint q)
  | _ => none

def decodeProperty (m : CStr × CJson) : Option DescribedProperty :=
  match (m.2.member (lit "type")).bind stringItem with
  | none => none
  | some name => (decodeType name).map fun type =>
    { name := m.1
      type
      default := (m.2.member (lit "default")).bind decodeValue
      minimum := (m.2.member (lit "minimum")).bind decodeInt
      maximum := (m.2.member (lit "maximum")).bind decodeInt }

def decodeUserOnly (json : CJson) : Bool :=
  match (json.member (lit "annotations")).bind (·.member (lit "audience")) with
  | some (.array (.string s :: _)) => s == lit "user"
  | _ => false

def decode (json : CJson) : Option Description :=
  match (json.member (lit "name")).bind stringItem,
    (json.member (lit "description")).bind stringItem with
  | some name, some description =>
    some {
      name, description
      userOnly := decodeUserOnly json
      properties := (propertySchemas (schemaOf json)).filterMap decodeProperty }
  | _, _ => none

/-! ## Decoding what was encoded -/

theorem propertyMembers_default (property : McpProperty)
    (h : property.hasDefault = true → property.value ≠ .string none) :
    ((CJson.object (propertyMembers property)).member (lit "default")).bind decodeValue =
      if property.hasDefault then some property.value else none := by
  obtain ⟨name, value, hasDefault, hasMin, hasMax, minValue, maxValue⟩ := property
  cases hasDefault with
  | false =>
    cases value <;> cases hasMin <;> cases hasMax <;> rfl
  | true =>
    cases value with
    | boolean b => rfl
    | integer v => exact congrArg (fun i => some (McpPropertyValue.integer i)) (CJson.valueint_toInt v)
    | string s =>
      cases s with
      | none => exact absurd rfl (h rfl)
      | some s => rfl

theorem decodeType_typeName (type : McpPropertyType) : decodeType (typeName type) = some type := by
  cases type <;> decide

theorem decodeProperty_eq {property : McpProperty} (h : property.Declared) {name : CStr}
    (hname : property.name = some name) :
    decodeProperty (name, .object (propertyMembers property)) = describeProperty property := by
  have hint : ∀ i : Int32, decodeInt (.number i.toInt) = some i := by simp [decodeInt]
  unfold decodeProperty
  rw [describeProperty, hname, propertyMembers_type]
  simp only [Option.bind_some, stringItem, decodeType_typeName, Option.map_some,
    propertyMembers_default property h.2, propertyMembers_minimum, propertyMembers_maximum]
  split_ifs <;> simp [hint]

theorem decodeProperties_eq {properties : List McpProperty} (h : ∀ p ∈ properties, p.Declared) :
    (properties.flatMap fun p =>
      (p.name.map fun name => (name, CJson.object (propertyMembers p))).toList).filterMap
        decodeProperty = properties.filterMap describeProperty := by
  induction properties with
  | nil => rfl
  | cons p rest ih =>
    obtain ⟨hp, hrest⟩ := List.forall_mem_cons.mp h
    obtain ⟨name, hname⟩ := Option.ne_none_iff_exists'.mp hp.1
    have hdecode := decodeProperty_eq hp hname
    rw [List.flatMap_cons, List.filterMap_append, ih hrest, hname, Option.map_some, Option.toList_some]
    cases hdescribe : describeProperty p with
    | none =>
      rw [hdescribe] at hdecode
      rw [List.filterMap_cons_none hdecode, List.filterMap_cons_none hdescribe]
      rfl
    | some described =>
      rw [hdescribe] at hdecode
      rw [List.filterMap_cons_some hdecode, List.filterMap_cons_some hdescribe]
      rfl

theorem decodeUserOnly_json (tool : McpTool W) : decodeUserOnly tool.json = tool.userOnly := by
  obtain ⟨name, description, properties, callback, userOnly⟩ := tool
  cases userOnly <;> rfl

theorem decode_json {tool : McpTool W} (h : ∀ p ∈ tool.properties, p.Declared) :
    decode tool.json = some (describe tool) := by
  have hname : tool.json.member (lit "name") = some (.string tool.name) := rfl
  have hdescription : tool.json.member (lit "description") = some (.string tool.description) := rfl
  have hproperties : (propertySchemas (schemaOf tool.json)).filterMap decodeProperty =
      tool.properties.filterMap describeProperty := by
    rw [← decodeProperties_eq h, ← propertySchemas_eq]
    rfl
  unfold decode
  rw [hname, hdescription]
  simp only [Option.bind_some, stringItem, decodeUserOnly_json, hproperties, describe]

theorem undefaulted_eq_nil {tool : McpTool W} (h : ∀ p ∈ tool.properties, p.Declared) :
    undefaulted tool = [] ↔ ¬tool.properties.any (!·.hasDefault) = true := by
  unfold undefaulted
  rw [List.filterMap_eq_nil_iff, List.any_eq_true]
  simp only [List.mem_filter, not_exists, not_and, and_imp]
  refine forall₂_congr fun p hp => ⟨fun hnone hdefault => (h p hp).1 (hnone hdefault), ?_⟩
  exact fun hno hdefault => absurd hdefault hno

theorem toolCreate_properties {name description : Option CStr} {properties : List McpProperty}
    {callback : Option (List McpProperty → W → McpReturnValue × W)} {userOnly : Bool}
    {tool : McpTool W} (h : mcpToolCreate name description properties callback userOnly = some tool) :
    tool.properties = properties := by
  cases name with
  | none => exact absurd h.symm (Option.some_ne_none tool)
  | some name =>
    cases description with
    | none => exact absurd h.symm (Option.some_ne_none tool)
    | some description =>
      obtain rfl := Option.some.inj h
      exact mcpPropertyListClone_eq properties

/-! ## A tool with three properties -/

def driveCalls : List AddCall := [
  .int (some (lit "speed")) false 0 true (-5) true 100,
  .bool (some (lit "lights")) true false,
  .string (some (lit "mode")) (some ∅)]

def driveTool : McpTool Unit where
  name := lit "drive"
  description := ∅
  properties := propertyList driveCalls
  callback := none
  userOnly := true

theorem driveTool_created :
    mcpToolCreate (some (lit "drive")) (some ∅) (propertyList driveCalls) none true =
      some driveTool := rfl

/-! ## The text and the listing -/

/-- Decoding the text of a tool, or its entry in a listing, gives back the fields of the tool,
and the `required` array names the properties without default. -/
theorem description_faithful (hL : L.RoundTrips) {name description : Option CStr}
    (calls : List AddCall) {callback : Option (List McpProperty → W → McpReturnValue × W)}
    {userOnly : Bool} {tool : McpTool W}
    (hcreate : mcpToolCreate name description (propertyList calls) callback userOnly = some tool) :
    (∃ text json, mcpToolToJson L tool = some text ∧ L.parse text = some json ∧
      decode json = some (describe tool) ∧
      (schemaOf json).member (lit "required") =
        if undefaulted tool = [] then none else some (.array ((undefaulted tool).map .string))) ∧
    ∀ server, Reachable server → tool ∈ server.tools →
      ∀ id includeUserTools cursor w page, askPage L server id includeUserTools cursor w = some page →
        ∀ entry ∈ page.tools, entry.member (lit "name") = some (.string tool.name) →
          decode entry = some (describe tool) := by
  have hdeclared : ∀ p ∈ tool.properties, p.Declared := by
    rw [toolCreate_properties hcreate]
    exact propertyList_declared calls
  constructor
  · refine ⟨_, tool.json, mcpToolToJson_eq hL tool, hL.parse_print _ tool.json_plain,
      decode_json hdeclared, ?_⟩
    refine (inputSchema_required tool).trans ?_
    by_cases hnone : undefaulted tool = []
    · rw [if_pos hnone, if_neg ((undefaulted_eq_nil hdeclared).mp hnone)]
    · rw [if_neg hnone, if_pos (not_not.mp fun h => hnone ((undefaulted_eq_nil hdeclared).mpr h))]
  · intro server hs hmem id includeUserTools cursor w page hpage entry hentry hname
    rw [askPage_eq hL] at hpage
    obtain rfl := Option.some.inj hpage
    obtain ⟨t, ht, rfl⟩ := List.mem_map.mp hentry
    have hsame : t.name = tool.name := by
      have : t.json.member (lit "name") = some (.string t.name) := rfl
      simpa [this] using hname
    obtain rfl := List.inj_on_of_nodup_map hs.inStep.names_nodup
      (List.mem_of_mem_filter (mem_page ht)) hmem hsame
    exact decode_json hdeclared

theorem description_faithful_drive :
    ∃ text json, mcpToolToJson CJsonLib.reference driveTool = some text ∧
      CJsonLib.reference.parse text = some json ∧ decode json = some (describe driveTool) := by
  obtain ⟨text, json, htext, hparse, hdecode, -⟩ :=
    (description_faithful CJsonLib.reference_roundTrips driveCalls driveTool_created).1
  exact ⟨text, json, htext, hparse, hdecode⟩

end MlinkDevice
