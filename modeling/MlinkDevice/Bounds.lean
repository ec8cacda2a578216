import MlinkDevice.Arguments
import MlinkDevice.Dispatch

/-!
# Integer bounds at the callback

`mcp_property_set_int` checks a value from the request against the declared bounds.
`mcp_property_list_add_int` stores the declared default without that check.
-/

open MlinkDevice.CStr

namespace MlinkDevice

variable {W : Type} {L : CJsonLib}

/-! ## One property -/

def WithinBounds (property : McpProperty) : Prop :=
  ∀ v, property.value = .integer v →
    (property.hasMin = true → property.minValue ≤ v) ∧
    (property.hasMax = true → v ≤ property.maxValue)

theorem inBounds_iff (property : McpProperty) (v : Int32) :
    inBounds property v = true ↔
      (property.hasMin = true → property.minValue ≤ v) ∧
      (property.hasMax = true → v ≤ property.maxValue) := by
  unfold inBounds
  simp only [decide_eq_true_eq, not_and, Int32.not_lt]

theorem withinBounds_stored {property : McpProperty} {value : CJson}
    (h : accepts property value = true) : WithinBounds (stored property value) := by
  obtain ⟨name, live, hasDefault, hasMin, hasMax, minValue, maxValue⟩ := property
  intro v hv
  cases live with
  | integer i =>
    cases value with
    | number q =>
      obtain rfl : CJson.valueint q = v := by simpa [stored] using hv
      exact (inBounds_iff _ _).mp h
    | _ => exact absurd h Bool.false_ne_true
  | _ =>
    cases value <;> first
      | exact absurd h Bool.false_ne_true
      | exact McpPropertyValue.noConfusion hv

theorem withinBounds_received {arguments : Option CJson} {property : McpProperty}
    (h : passes arguments property = true) :
    WithinBounds (received arguments property) ↔
      (property.type = .integer → argumentOf arguments property = none → WithinBounds property) := by
  unfold received
  cases hvalue : argumentOf arguments property with
  | none =>
    refine ⟨fun hwithin _ _ => hwithin, fun hdefault v hv => hdefault ?_ rfl v hv⟩
    rw [McpProperty.type, show property.value = .integer v from hv]
  | some value =>
    rw [passes, hvalue] at h
    exact ⟨fun _ _ hnone => absurd hnone (Option.some_ne_none value), fun _ => withinBounds_stored h⟩

/-! ## A request -/

/-- The `arguments` of a request. -/
def Request.arguments (r : Request) : Option CJson :=
  r.params.bind (·.getObjectItem (lit "arguments"))

theorem IsCall.received {server : McpServer W} {r : Request} {tool : McpTool W}
    {passed : List McpProperty} (h : IsCall server r tool passed) :
    (∀ p ∈ tool.properties, passes r.arguments p = true) ∧
      passed = tool.properties.map (received r.arguments) := by
  obtain ⟨-, params, hparams, -, -, -, -, hok, rfl⟩ := h
  have harguments : params.getObjectItem (lit "arguments") = r.arguments := by
    rw [Request.arguments, hparams, Option.bind_some]
  rw [harguments] at hok ⊢
  have hpasses := (parseArguments_ok_iff tool r.arguments).mp hok
  exact ⟨hpasses, by rw [parseArguments_passes hpasses]⟩

/-- Whatever the request hands to a callback is within the declared bounds. -/
def HandsWithinBounds (L : CJsonLib) (server : McpServer W) (r : Request) (w : W) : Prop :=
  ∀ called ∈ calls (dispatch L server r.method r.params r.id w).1, ∀ p ∈ called.2, WithinBounds p

/-- What a request hands to a callback is within the declared bounds exactly when the
properties of the called tool that it leaves out have their defaults within them. -/
theorem bounds_hold_iff (hL : L.RoundTrips) {server : McpServer W} (hs : Reachable server)
    (r : Request) (w : W) : HandsWithinBounds L server r w ↔
      ∀ tool passed, IsCall server r tool passed → ∀ p ∈ tool.properties, p.type = .integer →
        argumentOf r.arguments p = none → WithinBounds p := by
  obtain ⟨hone, hcalls⟩ := (dispatch_answered hL hs.inStep r w).calls hs.inStep
  constructor
  · intro hbounds tool passed hcall p hp
    obtain ⟨hpasses, rfl⟩ := hcall.received
    refine (withinBounds_received (hpasses p hp)).mp (hbounds
      (tool, tool.properties.map (received r.arguments)) ?_ _ (List.mem_map_of_mem hp))
    rw [(hcalls tool _).mpr hcall]
    exact List.mem_cons_self
  · rintro hdefaults ⟨tool, passed⟩ hcalled q hq
    obtain ⟨called, hsingle⟩ := List.length_eq_one_iff.mp
      (Nat.le_antisymm hone (List.length_pos_of_mem hcalled))
    rw [hsingle] at hcalls hcalled
    have hcall := (hcalls tool passed).mp (by rw [List.mem_singleton.mp hcalled])
    obtain ⟨hpasses, rfl⟩ := hcall.received
    obtain ⟨p, hp, rfl⟩ := List.mem_map.mp hq
    exact (withinBounds_received (hpasses p hp)).mpr (hdefaults tool _ hcall p hp)

/-! ## A default beyond its maximum -/

def volumeTool : McpTool Unit where
  name := lit "volume"
  description := ∅
  properties := (mcpPropertyListAddInt [] (some (lit "level")) true 200 true 0 true 100).2
  callback := some fun _ w => (.bool true, w)
  userOnly := false

def volumeServer : McpServer Unit := (addTools (mcpServerInit none) [volumeTool]).2

theorem volumeServer_reachable : Reachable volumeServer := ⟨none, [volumeTool], rfl⟩

def volumeCall (arguments : List (CStr × CJson)) : Request where
  method := lit "tools/call"
  params := some (.object [(lit "name", .string (lit "volume")), (lit "arguments", .object arguments)])
  id := 1

theorem bounds_hold_iff_volume : HandsWithinBounds CJsonLib.reference volumeServer
    (volumeCall [(lit "level", .number 50)]) () := by
  refine (bounds_hold_iff CJsonLib.reference_roundTrips volumeServer_reachable
    (volumeCall [(lit "level", .number 50)]) ()).mpr ?_
  intro tool passed hcall p hp _ hnone
  obtain rfl : tool = volumeTool := List.mem_singleton.mp hcall.2.choose_spec.2.2.1
  obtain rfl := List.mem_singleton.mp hp
  exact absurd hnone.symm (Option.some_ne_none _).symm

/-- Called without arguments, the callback reads the default of 200 where at most 100 is
declared. -/
theorem default_beyond_maximum :
    (∃ p, calls (dispatch CJsonLib.reference volumeServer (lit "tools/call")
        (volumeCall []).params 1 ()).1 = [(volumeTool, [p])] ∧
      mcpPropertyListGetInt [p] (lit "level") = some 200 ∧ p.hasMax = true ∧ p.maxValue = 100) ∧
    ¬ HandsWithinBounds CJsonLib.reference volumeServer (volumeCall []) () := by
  refine ⟨⟨_, rfl, rfl, rfl, rfl⟩, fun h => ?_⟩
  have hlevel := h (volumeTool, volumeTool.properties) List.mem_cons_self _ List.mem_cons_self
  exact absurd ((hlevel 200 rfl).2 rfl) (by decide)

end MlinkDevice
