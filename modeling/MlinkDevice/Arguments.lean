import MlinkDevice.Protocol

/-!
# The arguments of a call

`mcp_server_parse_arguments` goes on after a missing argument and stops at a bad one.
What it reports and hands over is one condition on each property.
-/

open MlinkDevice.CStr

namespace MlinkDevice

variable {W : Type}

/-! ## One property -/

def inBounds (property : McpProperty) (i : Int32) : Bool :=
  ¬(property.hasMin ∧ i < property.minValue) ∧ ¬(property.hasMax ∧ property.maxValue < i)

/-- `mcp_property_copy_from_json` takes the value. -/
def accepts (property : McpProperty) (value : CJson) : Bool :=
  match property.value, value with
  | .boolean _, .bool _ => true
  | .integer _, .number q => inBounds property (CJson.valueint q)
  | .string _, .string _ => true
  | _, _ => false

def stored (property : McpProperty) (value : CJson) : McpProperty :=
  match value with
  | .bool b => { property with value := .boolean b, hasDefault := true }
  | .number q => { property with value := .integer (CJson.valueint q), hasDefault := true }
  | .string s => { property with value := .string (some s), hasDefault := true }
  | _ => property

theorem setInt_eq {property : McpProperty} (h : property.type = .integer) (i : Int32) :
    mcpPropertySetInt property i =
      if inBounds property i then (true, { property with value := .integer i, hasDefault := true })
      else (false, property) := by
  unfold mcpPropertySetInt inBounds
  rw [if_neg (by simp [h])]
  by_cases hmin : property.hasMin ∧ i < property.minValue
  · simp only [hmin, and_self, not_true_eq_false, false_and, decide_false, if_true,
      Bool.false_eq_true, if_false]
  · by_cases hmax : property.hasMax ∧ property.maxValue < i
    · simp only [hmin, hmax, and_self, not_true_eq_false, and_false, decide_false, if_true,
        Bool.false_eq_true, if_false]
    · simp only [hmin, hmax, not_false_eq_true, and_self, decide_true, if_true, if_false]

theorem copyFromJson_eq (property : McpProperty) (value : CJson) :
    mcpPropertyCopyFromJson property value =
      if accepts property value then (true, stored property value) else (false, property) := by
  obtain ⟨name, live, hasDefault, hasMin, hasMax, minValue, maxValue⟩ := property
  cases live with
  | integer v =>
    cases value with
    | number q => exact setInt_eq rfl (CJson.valueint q)
    | _ => rfl
  | _ => cases value <;> rfl

theorem stored_type {property : McpProperty} {value : CJson} (h : accepts property value = true) :
    (stored property value).name = property.name ∧ (stored property value).type = property.type ∧
      (stored property value).hasDefault = true := by
  obtain ⟨name, live, hasDefault, hasMin, hasMax, minValue, maxValue⟩ := property
  cases live <;> cases value <;>
    first | exact ⟨rfl, rfl, rfl⟩ | exact absurd h Bool.false_ne_true

/-! ## All properties -/

def argumentOf (arguments : Option CJson) (property : McpProperty) : Option CJson :=
  arguments.bind fun arguments => property.name.bind arguments.getObjectItem

/-- A property whose argument is good, or missing with a default. -/
def passes (arguments : Option CJson) (property : McpProperty) : Bool :=
  match argumentOf arguments property with
  | none => property.hasDefault
  | some value => accepts property value

/-- The property that the callback gets. -/
def received (arguments : Option CJson) (property : McpProperty) : McpProperty :=
  match argumentOf arguments property with
  | none => property
  | some value => stored property value

theorem received_name (arguments : Option CJson) (property : McpProperty) :
    (received arguments property).name = property.name := by
  unfold received
  split
  · rfl
  · unfold stored
    split <;> rfl

theorem received_type {arguments : Option CJson} {property : McpProperty}
    (h : passes arguments property = true) :
    (received arguments property).type = property.type := by
  unfold received
  cases hvalue : argumentOf arguments property with
  | none => rfl
  | some value =>
    rw [passes, hvalue] at h
    exact (stored_type h).2.1

theorem getConst_received (arguments : Option CJson) (properties : List McpProperty) (name : CStr) :
    mcpPropertyListGetConst (properties.map (received arguments)) name =
      (mcpPropertyListGetConst properties name).map (received arguments) := by
  rw [mcpPropertyListGetConst, List.find?_map]
  congr 1
  rw [mcpPropertyListGetConst]
  congr 1
  funext p
  rw [Function.comp_apply, received_name]

theorem getConst_of_nodup {properties : List McpProperty}
    (hnodup : (properties.map (·.name)).Nodup) {p : McpProperty} (hp : p ∈ properties)
    {name : CStr} (hname : p.name = some name) :
    mcpPropertyListGetConst properties name = some p := by
  rw [mcpPropertyListGetConst]
  cases hfind : properties.find? fun q => q.name == some name with
  | none => exact absurd (List.find?_eq_none.mp hfind p hp) (by simp [hname])
  | some q =>
    have hq : q.name = some name := by simpa using List.find?_some hfind
    rw [List.inj_on_of_nodup_map hnodup (List.mem_of_find?_eq_some hfind) hp (hq.trans hname.symm)]

theorem parseLoop_passes {arguments : Option CJson} {properties : List McpProperty}
    (h : ∀ p ∈ properties, passes arguments p = true) (ok : Bool) (errorProperty : Option CStr) :
    parseArgumentsLoop arguments properties ok errorProperty =
      ⟨properties.map (received arguments), ok, errorProperty⟩ := by
  induction properties with
  | nil => rfl
  | cons p rest ih =>
    obtain ⟨hp, hrest⟩ := List.forall_mem_cons.mp h
    cases hvalue : argumentOf arguments p with
    | none =>
      have hdefault : p.hasDefault = true := by simpa [passes, hvalue] using hp
      have hreceived : received arguments p = p := by simp [received, hvalue]
      unfold argumentOf at hvalue
      simp only [parseArgumentsLoop, hvalue, hdefault, if_true, ih hrest, List.map_cons, hreceived]
    | some value =>
      have haccepts : accepts p value = true := by simpa [passes, hvalue] using hp
      have hreceived : received arguments p = stored p value := by simp [received, hvalue]
      unfold argumentOf at hvalue
      simp only [parseArgumentsLoop, hvalue, copyFromJson_eq, haccepts, if_true, ih hrest,
        List.map_cons, hreceived]

theorem parseLoop_ok (arguments : Option CJson) (properties : List McpProperty) (ok : Bool)
    (errorProperty : Option CStr) :
    (parseArgumentsLoop arguments properties ok errorProperty).ok =
      (ok && properties.all (passes arguments)) := by
  induction properties generalizing ok errorProperty with
  | nil => simp [parseArgumentsLoop]
  | cons p rest ih =>
    cases hvalue : argumentOf arguments p with
    | none =>
      have hpasses : passes arguments p = p.hasDefault := by simp [passes, hvalue]
      unfold argumentOf at hvalue
      simp only [parseArgumentsLoop, hvalue]
      cases hdefault : p.hasDefault <;> simp [ih, hpasses, hdefault]
    | some value =>
      have hpasses : passes arguments p = accepts p value := by simp [passes, hvalue]
      unfold argumentOf at hvalue
      simp only [parseArgumentsLoop, hvalue, copyFromJson_eq]
      cases haccepts : accepts p value <;> simp [ih, hpasses, haccepts]

/-! ## The property that is blamed -/

def rejects (arguments : Option CJson) (property : McpProperty) : Bool :=
  (argumentOf arguments property).any fun value => !accepts property value

def lacks (arguments : Option CJson) (property : McpProperty) : Bool :=
  (argumentOf arguments property).isNone && !property.hasDefault

/-- The first property whose argument is bad, or else the last that has none. -/
def blamed (arguments : Option CJson) (properties : List McpProperty) : Option McpProperty :=
  (properties.find? (rejects arguments)).or (properties.filter (lacks arguments)).getLast?

theorem passes_eq (arguments : Option CJson) (property : McpProperty) :
    passes arguments property = (!rejects arguments property && !lacks arguments property) := by
  unfold passes rejects lacks
  cases argumentOf arguments property <;> simp

theorem blamed_eq_none {arguments : Option CJson} {properties : List McpProperty} :
    blamed arguments properties = none ↔ ∀ p ∈ properties, passes arguments p = true := by
  simp only [blamed, Option.or_eq_none_iff, List.find?_eq_none, List.getLast?_eq_none_iff,
    List.filter_eq_nil_iff, passes_eq, Bool.and_eq_true, Bool.not_eq_true', Bool.not_eq_true]
  exact ⟨fun h p hp => ⟨h.1 p hp, h.2 p hp⟩, fun h => ⟨fun p hp => (h p hp).1, fun p hp => (h p hp).2⟩⟩

theorem mem_of_blamed {arguments : Option CJson} {properties : List McpProperty} {p : McpProperty}
    (h : blamed arguments properties = some p) : p ∈ properties := by
  rcases Option.or_eq_some_iff.mp h with hfirst | ⟨-, hlast⟩
  · exact List.mem_of_find?_eq_some hfirst
  · exact List.mem_of_mem_filter (List.mem_of_getLast? hlast)

theorem passes_of_blamed {arguments : Option CJson} {properties : List McpProperty} {p : McpProperty}
    (h : blamed arguments properties = some p) : passes arguments p = false := by
  rw [passes_eq]
  rcases Option.or_eq_some_iff.mp h with hfirst | ⟨-, hlast⟩
  · simp [List.find?_some hfirst]
  · simp [(List.mem_filter.mp (List.mem_of_getLast? hlast)).2]

theorem parseLoop_blames (arguments : Option CJson) (properties : List McpProperty) (ok : Bool)
    (errorProperty : Option CStr) :
    (parseArgumentsLoop arguments properties ok errorProperty).errorProperty =
      (blamed arguments properties).elim errorProperty (·.name) := by
  induction properties generalizing ok errorProperty with
  | nil => rfl
  | cons p rest ih =>
    unfold blamed at ih ⊢
    cases hvalue : argumentOf arguments p with
    | none =>
      have hrejects : rejects arguments p = false := by simp [rejects, hvalue]
      have hlacks : lacks arguments p = !p.hasDefault := by simp [lacks, hvalue]
      unfold argumentOf at hvalue
      rw [List.find?_cons_of_neg (by simp [hrejects])]
      simp only [parseArgumentsLoop, hvalue]
      cases hdefault : p.hasDefault with
      | true =>
        rw [if_pos rfl, ih, List.filter_cons_of_neg (by simp [hlacks, hdefault])]
      | false =>
        -- A later property takes the place of this one, if any is blamed.
        rw [if_neg Bool.false_ne_true, ih, List.filter_cons_of_pos (by simp [hlacks, hdefault]),
          List.getLast?_cons]
        cases rest.find? (rejects arguments) with
        | some q => rfl
        | none => cases (rest.filter (lacks arguments)).getLast? <;> rfl
    | some value =>
      have hrejects : rejects arguments p = !accepts p value := by simp [rejects, hvalue]
      have hlacks : lacks arguments p = false := by simp [lacks, hvalue]
      unfold argumentOf at hvalue
      simp only [parseArgumentsLoop, hvalue, copyFromJson_eq]
      cases haccepts : accepts p value with
      | true =>
        rw [List.find?_cons_of_neg (by simp [hrejects, haccepts]),
          List.filter_cons_of_neg (by simp [hlacks])]
        simpa only [if_true] using ih ok errorProperty
      | false =>
        rw [List.find?_cons_of_pos (by simp [hrejects, haccepts])]
        rfl

theorem parseArguments_blames (tool : McpTool W) (arguments : Option CJson) :
    (mcpServerParseArguments tool arguments).errorProperty =
      (blamed arguments tool.properties).bind (·.name) := by
  unfold mcpServerParseArguments
  rw [mcpPropertyListClone_eq, parseLoop_blames]
  cases blamed arguments tool.properties <;> rfl

/-! ## The parser -/

theorem parseArguments_passes {tool : McpTool W} {arguments : Option CJson}
    (h : ∀ p ∈ tool.properties, passes arguments p = true) :
    mcpServerParseArguments tool arguments =
      ⟨tool.properties.map (received arguments), true, none⟩ := by
  unfold mcpServerParseArguments
  rw [mcpPropertyListClone_eq, parseLoop_passes h]

theorem parseArguments_ok_iff (tool : McpTool W) (arguments : Option CJson) :
    (mcpServerParseArguments tool arguments).ok = true ↔
      ∀ p ∈ tool.properties, passes arguments p = true := by
  unfold mcpServerParseArguments
  rw [mcpPropertyListClone_eq, parseLoop_ok, Bool.true_and, List.all_eq_true]

theorem parseArguments_error {tool : McpTool W} {arguments : Option CJson}
    (h : (mcpServerParseArguments tool arguments).ok = false) :
    ∃ p ∈ tool.properties, passes arguments p = false ∧
      (mcpServerParseArguments tool arguments).errorProperty = p.name := by
  rw [← Bool.not_eq_true, parseArguments_ok_iff, ← blamed_eq_none] at h
  obtain ⟨p, hp⟩ := Option.ne_none_iff_exists'.mp h
  refine ⟨p, mem_of_blamed hp, passes_of_blamed hp, ?_⟩
  rw [parseArguments_blames, hp, Option.bind_some]

end MlinkDevice
