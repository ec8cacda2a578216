import MlinkDevice.Property

/-!
# Tools

`mcp_tool.c` and `mcp_return_value.c`: a tool, its description as JSON, and the call
of its callback. A callback may depend on and change a world `W` of its own.
-/

open MlinkDevice.CStr

namespace MlinkDevice

variable {W : Type}

/-! ## Data -/

/-- `struct mcp_return_value`. A pointer that may be NULL is optional, and of an image
only `encoded_data` is ever read. -/
inductive McpReturnValue where
  | bool (boolValue : Bool)
  | int (intValue : Int32)
  | string (stringValue : Option CStr)
  | json (jsonValue : Option CJson)
  | image (encodedData : Option (Option CStr))

/-- `struct mcp_tool`, with `user_ctx` inside the callback. A callback does not call back into the
library. -/
structure McpTool (W : Type) where
  name : CStr
  description : CStr
  properties : List McpProperty
  callback : Option (List McpProperty → W → McpReturnValue × W)
  userOnly : Bool

inductive Event (W : Type) where
  | send (payload : CStr)
  | call (tool : McpTool W) (arguments : List McpProperty)

/-- `mcp_tool_create`, with memory to spare. -/
def mcpToolCreate (name description : Option CStr) (properties : List McpProperty)
    (callback : Option (List McpProperty → W → McpReturnValue × W)) (userOnly : Bool) :
    Option (McpTool W) :=
  match utilsStrdup name, utilsStrdup description with
  | some name, some description =>
    some { name, description, properties := mcpPropertyListClone properties, callback, userOnly }
  | _, _ => none

/-! ## Description -/

/-- The loop of `mcp_tool_to_json`: `required`, `has_required` and `properties`. -/
structure SchemaParts where
  required : List CJson := []
  hasRequired : Bool := false
  properties : List (CStr × CJson) := []

/-- One property. A NULL name gives no string, so nothing is appended for it. -/
def schemaStep (L : CJsonLib) (parts : SchemaParts) (property : McpProperty) : Option SchemaParts :=
  let parts := if property.hasDefault then parts else
    { parts with
      required := parts.required ++ (property.name.map CJson.string).toList
      hasRequired := true }
  match mcpPropertyAppendJson L parts.properties property with
  | none => none
  | some properties => some { parts with properties }

def schemaLoop (L : CJsonLib) : List McpProperty → SchemaParts → Option SchemaParts
  | [], parts => some parts
  | property :: rest, parts =>
    match schemaStep L parts property with
    | none => none
    | some parts => schemaLoop L rest parts

def toolJson (tool : McpTool W) (parts : SchemaParts) : CJson :=
  .object ([
    (lit "name", .string tool.name),
    (lit "description", .string tool.description),
    (lit "inputSchema", .object ([
      (lit "type", .string (lit "object")),
      (lit "properties", .object parts.properties)] ++
      if parts.hasRequired then [(lit "required", .array parts.required)] else []))] ++
    if tool.userOnly then
      [(lit "annotations", .object [(lit "audience", .array [.string (lit "user")])])] else [])

def mcpToolToJson (L : CJsonLib) (tool : McpTool W) : Option CStr :=
  match schemaLoop L tool.properties {} with
  | none => none
  | some parts => some (L.print (toolJson tool parts))

/-! ## Calls -/

def printfInt (i : Int32) : CStr := Json.printInt i.toInt

def contentEntry (L : CJsonLib) : McpReturnValue → List (CStr × CJson)
  | .bool b =>
    [(lit "type", .string (lit "text")), (lit "text", .string (if b then lit "true" else lit "false"))]
  | .int i => [(lit "type", .string (lit "text")), (lit "text", .string (printfInt i))]
  | .string s => [(lit "type", .string (lit "text")), (lit "text", .string (s.getD ∅))]
  | .json j =>
    -- Printing the NULL value fails, and the text is then empty.
    [(lit "type", .string (lit "text")), (lit "text", .string ((j.map L.print).getD ∅))]
  | .image none => [(lit "type", .string (lit "image"))]
  | .image (some data) =>
    [(lit "type", .string (lit "image")), (lit "image", .string (data.getD ∅))]

def contentJson (L : CJsonLib) (value : McpReturnValue) : CJson :=
  .object [
    (lit "content", .array [.object (contentEntry L value)]),
    (lit "isError", .bool false)]

def mcpBuildContentFromReturn (L : CJsonLib) (value : McpReturnValue) : CStr :=
  L.print (contentJson L value)

/-- The text of the result (NULL without a callback), what happened, and the world after. -/
def mcpToolCall (L : CJsonLib) (tool : McpTool W) (arguments : List McpProperty) (w : W) :
    Option CStr × List (Event W) × W :=
  match tool.callback with
  | none => (none, [], w)
  | some callback =>
    let (value, w') := callback arguments w
    (some (mcpBuildContentFromReturn L value), [.call tool arguments], w')

/-! ## The tree of a tool -/

def schemaParts (properties : List McpProperty) : SchemaParts where
  required := (properties.filter (!·.hasDefault)).flatMap fun p => (p.name.map CJson.string).toList
  hasRequired := properties.any (!·.hasDefault)
  properties := properties.foldl
    (fun object p => addItemToObject object p.name (.object (propertyMembers p))) []

def McpTool.json (tool : McpTool W) : CJson := toolJson tool (schemaParts tool.properties)

theorem schemaStep_eq {L : CJsonLib} (hL : L.RoundTrips) (done : List McpProperty)
    (p : McpProperty) : schemaStep L (schemaParts done) p = some (schemaParts (done ++ [p])) := by
  cases hd : p.hasDefault <;>
    simp [schemaStep, mcpPropertyAppendJson_eq hL, schemaParts, hd]

theorem schemaLoop_eq {L : CJsonLib} (hL : L.RoundTrips) (done rest : List McpProperty) :
    schemaLoop L rest (schemaParts done) = some (schemaParts (done ++ rest)) := by
  induction rest generalizing done with
  | nil => simp [schemaLoop]
  | cons p rest ih =>
    simp only [schemaLoop, schemaStep_eq hL]
    rw [ih, List.append_assoc, List.singleton_append]

theorem mcpToolToJson_eq {L : CJsonLib} (hL : L.RoundTrips) (tool : McpTool W) :
    mcpToolToJson L tool = some (L.print tool.json) := by
  have h := schemaLoop_eq hL [] tool.properties
  rw [show schemaParts [] = {} from rfl, List.nil_append] at h
  unfold mcpToolToJson
  rw [h]
  rfl

theorem schemaParts_properties (properties : List McpProperty) :
    (schemaParts properties).properties = properties.flatMap fun p =>
      (p.name.map fun name => (name, CJson.object (propertyMembers p))).toList := by
  have h : ∀ object : List (CStr × CJson), properties.foldl
      (fun object p => addItemToObject object p.name (.object (propertyMembers p))) object =
        object ++ properties.flatMap fun p =>
          (p.name.map fun name => (name, CJson.object (propertyMembers p))).toList := by
    induction properties with
    | nil => simp
    | cons p ps ih =>
      intro object
      rw [List.foldl_cons, ih]
      cases hn : p.name <;> simp [addItemToObject, hn]
  exact h []

theorem McpTool.json_plain (tool : McpTool W) : tool.json.Plain := by
  have hprops : ∀ m ∈ (schemaParts tool.properties).properties, m.2.Plain := by
    rw [schemaParts_properties]
    intro m hm
    simp only [List.mem_flatMap, Option.mem_toList, Option.map_eq_some_iff] at hm
    obtain ⟨p, -, name, -, rfl⟩ := hm
    exact propertyMembers_plain p
  have hreq : ∀ v ∈ (schemaParts tool.properties).required, v.Plain := by
    intro v hv
    simp only [schemaParts, List.mem_flatMap, Option.mem_toList, Option.map_eq_some_iff] at hv
    obtain ⟨p, -, name, -, rfl⟩ := hv
    simp
  unfold McpTool.json toolJson
  split_ifs <;> simp_all
  all_goals exact fun k v hm => hprops k v hm

theorem contentJson_plain (L : CJsonLib) (value : McpReturnValue) : (contentJson L value).Plain := by
  have h : ∀ m ∈ contentEntry L value, m.2.Plain := by
    unfold contentEntry
    split <;> simp
  simpa [contentJson] using h

end MlinkDevice
