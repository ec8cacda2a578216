import Mathlib.Data.List.Forall2
import MlinkDevice.Advertise
import MlinkDevice.Arguments

/-!
# The advertised schema and the check of a call

What `mcp_tool_to_json` advertises for a tool against what `mcp_server_parse_arguments`
accepts for it.
-/

open MlinkDevice.CStr MlinkDevice.Json

namespace MlinkDevice

variable {W : Type}

/-! ## The schema and the check -/

theorem accepts_of_advertised {property : McpProperty} {value : CJson}
    (h : Advertised property value) : accepts property value = true := by
  obtain ⟨name, live, hasDefault, hasMin, hasMax, minValue, maxValue⟩ := property
  cases live with
  | integer v =>
    cases value with
    | number q =>
      obtain ⟨-, hmin, hmax⟩ := h
      refine decide_eq_true ⟨fun ⟨hm, hlt⟩ => ?_, fun ⟨hm, hlt⟩ => ?_⟩
      · exact absurd (CJson.lt_of_valueint_lt hlt) (not_lt.mpr (hmin hm))
      · exact absurd (CJson.lt_of_lt_valueint hlt) (not_lt.mpr (hmax hm))
    | _ => exact h.elim
  | _ => cases value <;> first | rfl | exact h.elim

theorem advertised_of_accepts {property : McpProperty} {value : CJson}
    (h : accepts property value = true)
    (hint : property.type = .integer → ∀ q, value = .number q → CJson.IsInt q) :
    Advertised property value := by
  obtain ⟨name, live, hasDefault, hasMin, hasMax, minValue, maxValue⟩ := property
  cases live with
  | integer v =>
    cases value with
    | number q =>
      obtain ⟨i, rfl⟩ := hint rfl q rfl
      have hbounds := of_decide_eq_true h
      simp only [CJson.valueint_toInt, not_and, Int32.not_lt] at hbounds
      refine ⟨⟨i.toInt, rfl⟩, fun hm => ?_, fun hm => ?_⟩
      · exact_mod_cast Int32.le_iff_toInt_le.mp (hbounds.1 hm)
      · exact_mod_cast Int32.le_iff_toInt_le.mp (hbounds.2 hm)
    | _ => exact absurd h Bool.false_ne_true
  | _ => cases value <;> trivial

def jsonType : CJson → Option McpPropertyType
  | .bool _ => some .boolean
  | .number _ => some .integer
  | .string _ => some .string
  | _ => none

/-- A value of the wrong type, or a number beyond the bounds. -/
def Refused (property : McpProperty) (value : CJson) : Prop :=
  jsonType value ≠ some property.type ∨ ∃ q, value = .number q ∧
    ((property.hasMin ∧ q < property.minValue.toInt) ∨
      (property.hasMax ∧ (property.maxValue.toInt : ℚ) < q))

theorem refused_of_not_accepts {property : McpProperty} {value : CJson}
    (h : accepts property value = false) : Refused property value := by
  obtain ⟨name, live, hasDefault, hasMin, hasMax, minValue, maxValue⟩ := property
  cases live with
  | integer v =>
    cases value with
    | number q =>
      have hbounds := of_decide_eq_false h
      rw [not_and_or, not_not, not_not] at hbounds
      refine .inr ⟨q, rfl, hbounds.imp ?_ ?_⟩
      · exact fun ⟨hm, hlt⟩ => ⟨hm, CJson.lt_of_valueint_lt hlt⟩
      · exact fun ⟨hm, hlt⟩ => ⟨hm, CJson.lt_of_lt_valueint hlt⟩
    | _ => exact .inl (by simp [jsonType, McpProperty.type])
  | _ =>
    cases value <;> first
      | exact absurd h.symm Bool.false_ne_true
      | exact .inl (by simp [jsonType, McpProperty.type])

/-! ## What meets the schema is accepted -/

def found (arguments : Option CJson) (name : CStr) : Option CJson :=
  arguments.bind (·.getObjectItem name)

/-- The argument of exactly that name. -/
def exactly (arguments : Option CJson) (name : CStr) : Option CJson :=
  arguments.bind (·.member name)

theorem argumentOf_eq (arguments : Option CJson) (property : McpProperty) :
    argumentOf arguments property = property.name.bind (found arguments) := by
  cases arguments <;> cases hname : property.name <;> simp [argumentOf, found, hname]

/-- What the callback gets for a property is its argument, or its default without one. -/
structure Receives (find : CStr → Option CJson) (property received : McpProperty) : Prop where
  name : received.name = property.name
  type : received.type = property.type
  missing : property.name.bind find = none → received = property
  present : property.name.bind find ≠ none → received.hasDefault = true
  bool : ∀ b, property.name.bind find = some (.bool b) → received.value = .boolean b
  int : ∀ i : Int32, property.name.bind find = some (.number i.toInt) → received.value = .integer i
  string : ∀ s, property.name.bind find = some (.string s) → received.value = .string (some s)

theorem receives_of_passes {arguments : Option CJson} {property : McpProperty}
    (h : passes arguments property = true) :
    Receives (found arguments) property (received arguments property) := by
  rw [passes, argumentOf_eq] at h
  rw [received, argumentOf_eq]
  cases hfound : property.name.bind (found arguments) with
  | none => exact ⟨rfl, rfl, fun _ => rfl, by simp [hfound], by simp [hfound], by simp [hfound],
      by simp [hfound]⟩
  | some value =>
    rw [hfound] at h
    obtain ⟨hname, htype, hdefault⟩ := stored_type h
    refine ⟨hname, htype, by simp [hfound], fun _ => hdefault, fun b hb => ?_, fun i hi => ?_,
      fun s hs => ?_⟩
    · obtain rfl : value = .bool b := by simpa [hfound] using hb
      rfl
    · obtain rfl : value = .number i.toInt := by simpa [hfound] using hi
      simp [stored]
    · obtain rfl : value = .string s := by simpa [hfound] using hs
      rfl

theorem passes_of_meets {tool : McpTool W} {arguments : Option CJson}
    (hnames : ∀ p ∈ tool.properties, p.name ≠ none)
    (h : MeetsSchema (inputSchema tool) (found arguments)) :
    ∀ p ∈ tool.properties, passes arguments p = true := by
  intro p hp
  obtain ⟨name, hname⟩ := Option.ne_none_iff_exists'.mp (hnames p hp)
  have hargument : argumentOf arguments p = found arguments name := by
    rw [argumentOf_eq, hname, Option.bind_some]
  rw [passes, hargument]
  cases hfound : found arguments name with
  | none =>
    by_contra hdefault
    exact h.required name (mem_requiredNames.mpr ⟨p, hp, hname, by simpa using hdefault⟩) hfound
  | some value =>
    have hmeets := h.properties (name, _) (mem_propertySchemas.mpr ⟨p, hp, hname, rfl⟩) value hfound
    exact accepts_of_advertised ((meetsProperty_iff p value).mp hmeets)

theorem found_eq_exactly {arguments : Option CJson} {name : CStr}
    (h : ∀ v, arguments = some v → ∀ key ∈ v.keys, key.sameLetters name = true → key = name) :
    found arguments name = exactly arguments name := by
  cases arguments with
  | none => rfl
  | some v => exact CJson.getObjectItem_eq_member (h v rfl)

theorem Receives.congr {find find' : CStr → Option CJson} {property received : McpProperty}
    (h : Receives find property received)
    (hfind : property.name.bind find = property.name.bind find') : Receives find' property received where
  name := h.name
  type := h.type
  missing := hfind ▸ h.missing
  present := hfind ▸ h.present
  bool := hfind ▸ h.bool
  int := hfind ▸ h.int
  string := hfind ▸ h.string

theorem parsed_receives {tool : McpTool W} {arguments : Option CJson}
    {find : CStr → Option CJson}
    (hfind : ∀ p ∈ tool.properties, p.name.bind (found arguments) = p.name.bind find)
    (h : ∀ p ∈ tool.properties, passes arguments p = true) :
    (mcpServerParseArguments tool arguments).ok = true ∧
      List.Forall₂ (Receives find) tool.properties
        (mcpServerParseArguments tool arguments).parsed := by
  rw [parseArguments_passes h]
  refine ⟨rfl, ?_⟩
  rw [List.forall₂_map_right_iff, List.forall₂_same]
  exact fun p hp => (receives_of_passes (h p hp)).congr (hfind p hp)

/-! ## A property with a default -/

def modeTool : McpTool Unit where
  name := lit "set"
  description := ∅
  properties := (mcpPropertyListAddString [] (some (lit "mode")) (some (lit "auto"))).2
  callback := none
  userOnly := false

theorem modeTool_names : ∀ p ∈ modeTool.properties, p.name ≠ none := by decide

theorem modeTool_meets {find : CStr → Option CJson}
    (h : ∀ v, find (lit "mode") = some v → ∃ s, v = .string s) :
    MeetsSchema (inputSchema modeTool) find := by
  refine ⟨fun name hname => ?_, fun ⟨name, schema⟩ hm v hv => ?_⟩
  · obtain ⟨p, hp, -, hdefault⟩ := mem_requiredNames.mp hname
    obtain rfl := List.mem_singleton.mp hp
    exact absurd hdefault Bool.noConfusion
  · obtain ⟨p, hp, hname, hschema⟩ := mem_propertySchemas.mp hm
    obtain rfl := List.mem_singleton.mp hp
    obtain rfl : lit "mode" = name := Option.some.inj hname
    obtain ⟨s, rfl⟩ := h v hv
    rw [hschema, meetsProperty_iff]
    trivial

/-- A member that is not declared, but differs from the declared one in letter case only. -/
def upperMode : CJson := .object [(lit "MODE", .number 3)]

/-! ## Completeness -/

/-- Arguments that meet the advertised schema are accepted, and the callback gets them, where
a member counts up to letter case, or exactly when no name differs in letter case only. An
error names a property whose argument is missing or refused. -/
theorem schema_accepted {tool : McpTool W} (hnames : ∀ p ∈ tool.properties, p.name ≠ none)
    (arguments : Option CJson) :
    let result := mcpServerParseArguments tool arguments
    (MeetsSchema (inputSchema tool) (found arguments) →
      result.ok = true ∧
        List.Forall₂ (Receives (found arguments)) tool.properties result.parsed) ∧
    ((∀ p ∈ tool.properties, ∀ name, p.name = some name → ∀ v, arguments = some v →
        ∀ key ∈ v.keys, key.sameLetters name = true → key = name) →
      MeetsSchema (inputSchema tool) (exactly arguments) →
      result.ok = true ∧
        List.Forall₂ (Receives (exactly arguments)) tool.properties result.parsed) ∧
    (result.ok = false → ∃ p ∈ tool.properties, result.errorProperty = p.name ∧
      ((p.name.bind (found arguments) = none ∧ p.hasDefault = false) ∨
        ∃ v, p.name.bind (found arguments) = some v ∧ Refused p v)) := by
  intro result
  refine ⟨fun h => parsed_receives (fun _ _ => rfl) (passes_of_meets hnames h), fun hcase h => ?_,
    fun h => ?_⟩
  · have hagree : ∀ p ∈ tool.properties, ∀ name, p.name = some name →
        exactly arguments name = found arguments name :=
      fun p hp name hname => (found_eq_exactly (hcase p hp name hname)).symm
    have hfound : MeetsSchema (inputSchema tool) (found arguments) := by
      refine h.congr (fun name hname => ?_) fun m hm => ?_
      · obtain ⟨p, hp, hp', -⟩ := mem_requiredNames.mp hname
        exact hagree p hp name hp'
      · obtain ⟨p, hp, hp', -⟩ := mem_propertySchemas.mp hm
        exact hagree p hp m.1 hp'
    refine parsed_receives (fun p hp => ?_) (passes_of_meets hnames hfound)
    cases hname : p.name with
    | none => rfl
    | some name => exact (hagree p hp name hname).symm
  · obtain ⟨p, hp, hfails, herror⟩ := parseArguments_error h
    refine ⟨p, hp, herror, ?_⟩
    rw [passes, argumentOf_eq] at hfails
    cases hfound : p.name.bind (found arguments) with
    | none => exact .inl ⟨rfl, by simpa [hfound] using hfails⟩
    | some v => exact .inr ⟨v, rfl, refused_of_not_accepts (by simpa [hfound] using hfails)⟩

theorem schema_accepted_mode :
    (mcpServerParseArguments modeTool (some (.object [(lit "mode", .string (lit "eco"))]))).ok = true := by
  refine ((schema_accepted modeTool_names _).1 (modeTool_meets fun v hv => ?_)).1
  exact ⟨lit "eco", (Option.some.inj hv).symm⟩

/-- Read with exact names, the schema allows the undeclared member, but the parser takes it
for the declared one. -/
theorem upper_case_refused :
    MeetsSchema (inputSchema modeTool) (exactly (some upperMode)) ∧
    (mcpServerParseArguments modeTool (some upperMode)).ok = false := by
  refine ⟨modeTool_meets fun v hv => ?_, rfl⟩
  exact absurd hv.symm (Option.some_ne_none v)

/-! ## What is accepted meets the schema -/

/-- An accepted call meets the advertised schema, and the callback reads the numbers that
the client sent, where a member counts up to letter case. -/
def Sound (tool : McpTool W) (arguments : CJson) : Prop :=
  let result := mcpServerParseArguments tool (some arguments)
  result.ok = true →
    (∀ m ∈ propertySchemas (inputSchema tool), ∀ v, found (some arguments) m.1 = some v →
      MeetsProperty m.2 v) ∧
    ∀ name i v, mcpPropertyListGetInt result.parsed name = some i →
      found (some arguments) name = some v → v = .number i.toInt

theorem getConst_of_mem {properties : List McpProperty} {names : List CStr}
    (hnames : properties.map (·.name) = names.map some)
    (hdistinct : names.Pairwise fun a b => a.sameLetters b = false) {p : McpProperty}
    (hp : p ∈ properties) {name : CStr} (hname : p.name = some name) :
    mcpPropertyListGetConst properties name = some p := by
  refine getConst_of_nodup ?_ hp hname
  rw [hnames]
  refine List.Nodup.map (Option.some_injective _) (hdistinct.imp fun h heq => ?_)
  rw [heq, sameLetters_refl] at h
  exact Bool.noConfusion h

theorem getInt_eq_some {properties : List McpProperty} {name : CStr} {i : Int32} :
    mcpPropertyListGetInt properties name = some i ↔
      ∃ p, mcpPropertyListGetConst properties name = some p ∧ p.value = .integer i ∧
        p.hasDefault = true := by
  rw [mcpPropertyListGetInt]
  cases mcpPropertyListGetConst properties name with
  | none => simp
  | some p =>
    obtain ⟨name, value, hasDefault, hasMin, hasMax, minValue, maxValue⟩ := p
    cases value <;> cases hasDefault <;> simp

theorem getInt_parsed {tool : McpTool W} {arguments : Option CJson}
    (hpass : ∀ p ∈ tool.properties, passes arguments p = true) {name : CStr} {i : Int32} :
    mcpPropertyListGetInt (mcpServerParseArguments tool arguments).parsed name = some i ↔
      ∃ p, mcpPropertyListGetConst tool.properties name = some p ∧
        (received arguments p).value = .integer i ∧ (received arguments p).hasDefault = true := by
  rw [parseArguments_passes hpass, getInt_eq_some, getConst_received]
  simp only [Option.map_eq_some_iff]
  constructor
  · rintro ⟨_, ⟨p, hp, rfl⟩, hvalue, hdefault⟩
    exact ⟨p, hp, hvalue, hdefault⟩
  · rintro ⟨p, hp, hvalue, hdefault⟩
    exact ⟨_, ⟨p, hp, rfl⟩, hvalue, hdefault⟩

theorem stored_integer {property : McpProperty} {value : CJson} {i : Int32}
    (h : accepts property value = true) (hvalue : (stored property value).value = .integer i) :
    property.type = .integer ∧ ∃ q, value = .number q ∧ CJson.valueint q = i := by
  have htype : (stored property value).type = property.type := (stored_type h).2.1
  refine ⟨by rw [← htype, McpProperty.type, hvalue], ?_⟩
  cases value with
  | number q => exact ⟨q, rfl, by simpa [stored] using hvalue⟩
  | bool b => simp [stored] at hvalue
  | string s => simp [stored] at hvalue
  | _ => exact absurd h (by unfold accepts; cases property.value <;> exact Bool.false_ne_true)

/-! ## A property with bounds -/

def speedTool : McpTool Unit where
  name := lit "drive"
  description := ∅
  properties := (mcpPropertyListAddInt [] (some (lit "speed")) false 0 true 0 true 100).2
  callback := none
  userOnly := false

def tooFast : CJson := .object [(lit "speed", .number (201 / 2))]

/-! ## Soundness -/

/-- A checked call is sound exactly when every number that is found for an integer property is
one that an `int` holds. -/
theorem sound_iff {tool : McpTool W} (names : List CStr)
    (hnames : tool.properties.map (·.name) = names.map some)
    (hdistinct : names.Pairwise fun a b => a.sameLetters b = false) (arguments : CJson) :
    Sound tool arguments ↔
      ((∀ p ∈ tool.properties, passes (some arguments) p = true) →
        ∀ p ∈ tool.properties, p.type = .integer → ∀ q,
          argumentOf (some arguments) p = some (.number q) → CJson.IsInt q) := by
  have hargument : ∀ p name, p.name = some name →
      argumentOf (some arguments) p = found (some arguments) name := by
    intro p name hname
    rw [argumentOf_eq, hname, Option.bind_some]
  have hnamed : ∀ p ∈ tool.properties, ∃ name, p.name = some name := by
    intro p hp
    have hmem := List.mem_map_of_mem (f := (·.name)) hp
    rw [hnames] at hmem
    obtain ⟨name, -, hname⟩ := List.mem_map.mp hmem
    exact ⟨name, hname.symm⟩
  constructor
  · intro hsound hpass p hp htype q hvalue
    obtain ⟨name, hname⟩ := hnamed p hp
    have hreceived : received (some arguments) p = stored p (.number q) := by rw [received, hvalue]
    have hread : mcpPropertyListGetInt (mcpServerParseArguments tool (some arguments)).parsed name =
        some (CJson.valueint q) := by
      refine (getInt_parsed hpass).mpr ⟨p, getConst_of_mem hnames hdistinct hp hname, ?_⟩
      rw [hreceived]
      exact ⟨rfl, rfl⟩
    have hfound := (hargument p name hname).symm.trans hvalue
    have hsame := (hsound ((parseArguments_ok_iff tool _).mpr hpass)).2 name _ _ hread hfound
    exact ⟨CJson.valueint q, by simpa using hsame⟩
  · intro hints hok
    have hpass := (parseArguments_ok_iff tool (some arguments)).mp hok
    have haccepts : ∀ p ∈ tool.properties, ∀ v, argumentOf (some arguments) p = some v →
        accepts p v = true := by
      intro p hp v hvalue
      have := hpass p hp
      rwa [passes, hvalue] at this
    refine ⟨fun m hm v hfound => ?_, fun name i v hread hfound => ?_⟩
    · obtain ⟨name, schema⟩ := m
      obtain ⟨p, hp, hname, rfl⟩ := mem_propertySchemas.mp hm
      have hvalue := (hargument p name hname).trans hfound
      refine (meetsProperty_iff p v).mpr (advertised_of_accepts (haccepts p hp v hvalue) ?_)
      rintro htype q rfl
      exact hints hpass p hp htype q hvalue
    · obtain ⟨p, hconst, hreceived, -⟩ := (getInt_parsed hpass).mp hread
      have hp := List.mem_of_find?_eq_some hconst
      have hname : p.name = some name := by simpa using List.find?_some hconst
      have hvalue := (hargument p name hname).trans hfound
      rw [received, hvalue] at hreceived
      obtain ⟨htype, q, rfl, rfl⟩ := stored_integer (haccepts p hp v hvalue) hreceived
      rw [(CJson.isInt_iff q).mp (hints hpass p hp htype q hvalue)]

theorem sound_iff_speed : Sound speedTool tooFast ↔
    ((∀ p ∈ speedTool.properties, passes (some tooFast) p = true) →
      ∀ p ∈ speedTool.properties, p.type = .integer → ∀ q,
        argumentOf (some tooFast) p = some (.number q) → CJson.IsInt q) :=
  sound_iff [lit "speed"] rfl (by simp) tooFast

/-- A speed of 100.5 is accepted, and the callback reads 100. -/
theorem fraction_accepted :
    (mcpServerParseArguments speedTool (some tooFast)).ok = true ∧
    mcpPropertyListGetInt (mcpServerParseArguments speedTool (some tooFast)).parsed (lit "speed") =
      some 100 ∧
    ¬Sound speedTool tooFast := by
  have hvalue : CJson.valueint (201 / 2) = 100 := by
    norm_num [CJson.valueint, CJson.trunc]
    rfl
  have hpass : ∀ p ∈ speedTool.properties, passes (some tooFast) p = true := by
    intro p hp
    obtain rfl := List.mem_singleton.mp hp
    apply decide_eq_true
    rw [hvalue]
    decide
  have hok := (parseArguments_ok_iff speedTool (some tooFast)).mpr hpass
  have hread : mcpPropertyListGetInt (mcpServerParseArguments speedTool (some tooFast)).parsed
      (lit "speed") = some 100 := by
    rw [parseArguments_passes hpass, getInt_eq_some]
    exact ⟨_, rfl, congrArg _ hvalue, rfl⟩
  refine ⟨hok, hread, fun hsound => ?_⟩
  have hsame := (hsound hok).2 (lit "speed") 100 (.number (201 / 2)) hread rfl
  rw [CJson.number.injEq, show (100 : Int32).toInt = 100 from rfl] at hsame
  norm_num at hsame

end MlinkDevice
