import MlinkDevice.Defaults
import MlinkDevice.Pointers.Arguments

/-!
# Properties that are set

The setters of `mcp_property.c` on what `mcp_property_list_get` points to, with duplicates that may
fail. A property keeps its name, type and bounds, and holds what was last stored in it.
-/

open MlinkDevice.CStr

namespace MlinkDevice.Copying

/-! ## The setters -/

/-- A call of one of the setters. -/
inductive Setter where
  | bool (value : Bool)
  | int (value : Int32)
  | string (value : Option CStr) (memory : Bool)
  | json (item : Option CJson) (memory : Bool)

def Setter.set (property : McpProperty) : Setter → Bool × McpProperty
  | .bool value => mcpPropertySetBool property value
  | .int value => mcpPropertySetInt property value
  | .string value memory => mcpPropertySetString memory property value
  | .json none _ => (false, property)
  | .json (some item) memory => mcpPropertyCopyFromJson memory property item

/-- A setter on what `mcp_property_list_get` returns, which may be NULL. -/
def setProperty (list : PropertyList) (name : Option CStr) (setter : Setter) : Bool × PropertyList :=
  match name with
  | none => (false, list)
  | some name =>
    match list.items.findIdx? fun property => property.name == some name with
    | none => (false, list)
    | some i =>
      match list.items[i]? with
      | none => (false, list)
      | some property =>
        let (ok, property) := setter.set property
        (ok, { list with items := list.items.set i property })

/-! ## Calls -/

inductive SettingCall where
  | add (call : ListCall)
  | set (name : Option CStr) (setter : Setter)

def SettingCall.apply (list : PropertyList) : SettingCall → Bool × PropertyList
  | .add call => call.apply list
  | .set name setter => setProperty list name setter

/-- A list with the calls made on it so far and what they returned. -/
structure SetList where
  list : PropertyList := {}
  log : List (SettingCall × Bool) := []

def SetList.call (s : SetList) (call : SettingCall) : SetList :=
  let (ok, list) := call.apply s.list
  { list, log := s.log ++ [(call, ok)] }

/-! ## What is remembered -/

/-- The value that a setter has for its property, `.string none` when the duplicate fails. -/
def Setter.value : Setter → Option McpPropertyValue
  | .bool value => some (.boolean value)
  | .int value => some (.integer value)
  | .string value memory => some (.string (utilsStrdup memory (some (value.getD ∅))))
  | .json (some (.bool b)) _ => some (.boolean b)
  | .json (some (.number q)) _ => some (.integer (CJson.valueint q))
  | .json (some (.string s)) memory => some (.string (utilsStrdup memory (some s)))
  | .json _ _ => none

end MlinkDevice.Copying

namespace MlinkDevice.McpProperty

/-- The value has the type of the property and is within its bounds. -/
def takes (property : McpProperty) : McpPropertyValue → Bool
  | .boolean _ => property.type = .boolean
  | .integer v => property.type = .integer && inBounds property v
  | .string _ => property.type = .string

def holding (property : McpProperty) : Option McpPropertyValue → McpProperty
  | none => property
  | some value => { property with value, hasDefault := true }

/-- What the setters have in common. A string that was not duplicated is stored as NULL. -/
def put (property : McpProperty) (value : McpPropertyValue) : Bool × McpProperty :=
  if property.takes value then (value ≠ .string none, property.holding (some value))
  else (false, property)

/-- What the typed getters read. -/
def heldBool : McpProperty → Option Bool
  | { value := .boolean v, hasDefault := true, .. } => some v
  | _ => none

def heldInt : McpProperty → Option Int32
  | { value := .integer v, hasDefault := true, .. } => some v
  | _ => none

def heldString : McpProperty → Option CStr
  | { value := .string v, hasDefault := true, .. } => v
  | _ => none

@[simp]
theorem holding_name (property : McpProperty) (value : Option McpPropertyValue) :
    (property.holding value).name = property.name := by
  cases value <;> rfl

theorem holding_holding (property : McpProperty) (first second : Option McpPropertyValue) :
    (property.holding first).holding second = property.holding (second.or first) := by
  cases first <;> cases second <;> rfl

theorem takes_holding {property : McpProperty} {held : Option McpPropertyValue}
    (h : ∀ value ∈ held, property.takes value = true) :
    (property.holding held).takes = property.takes := by
  cases held with
  | none => rfl
  | some value =>
    have htakes := h value rfl
    have htype : (property.holding (some value)).type = property.type := by
      cases value with
      | integer v => exact (of_decide_eq_true ((Bool.and_eq_true _ _).mp htakes).1).symm
      | _ => exact (of_decide_eq_true htakes).symm
    funext other
    simp only [takes, htype]
    rfl

end MlinkDevice.McpProperty

namespace MlinkDevice.Copying

/-- The property that the call has put under the name. -/
def declares (name : CStr) : SettingCall × Bool → Option McpProperty
  | (.add call, true) => some (propertyCopyFunc call.memory.copy call.adder.property) |>.filter
      fun property => property.name == some name
  | _ => none

/-- What the call stores in the property of that name. -/
def stores (name : CStr) (property : McpProperty) : SettingCall × Bool → Option McpPropertyValue
  | (.set (some target) setter, _) =>
    if target = name then setter.value.filter property.takes else none
  | _ => none

/-- The first property that was put under the name, with the last value stored in it since. -/
def remembered (name : CStr) : List (SettingCall × Bool) → Option McpProperty
  | [] => none
  | entry :: log =>
    match declares name entry with
    | some property => some (property.holding (log.filterMap (stores name property)).getLast?)
    | none => remembered name log

section Remembered

variable {name : CStr} {property : McpProperty}

theorem stores_takes {entry : SettingCall × Bool} {value : McpPropertyValue}
    (h : stores name property entry = some value) : property.takes value = true := by
  obtain ⟨call, ok⟩ := entry
  cases call with
  | add => exact absurd h.symm (Option.some_ne_none value)
  | set target setter =>
    cases target with
    | none => exact absurd h.symm (Option.some_ne_none value)
    | some target =>
      obtain ⟨-, h⟩ := Option.ite_none_right_eq_some.mp h
      exact (Option.filter_eq_some_iff.mp h).2

theorem stores_congr {other : McpProperty} (h : other.takes = property.takes) :
    stores name other = stores name property := by
  funext entry
  simp only [stores, h]

/-- **Step.** What is remembered after one more call. -/
theorem remembered_append (log : List (SettingCall × Bool)) (entry : SettingCall × Bool) :
    remembered name (log ++ [entry]) =
      match remembered name log with
      | some property => some (property.holding (stores name property entry))
      | none => declares name entry := by
  induction log with
  | nil =>
    simp only [List.nil_append, remembered, List.filterMap_nil, List.getLast?_nil]
    cases declares name entry <;> rfl
  | cons first log ih =>
    rw [List.cons_append, remembered, remembered]
    cases declares name first with
    | none => exact ih
    | some property =>
      have htakes : ∀ value ∈ (log.filterMap (stores name property)).getLast?,
          property.takes value = true := by
        intro value hvalue
        obtain ⟨entry, -, hstores⟩ := List.mem_filterMap.mp (List.mem_of_getLast? hvalue)
        exact stores_takes hstores
      dsimp only
      rw [stores_congr (McpProperty.takes_holding htakes), McpProperty.holding_holding,
        List.filterMap_append, List.getLast?_append]
      cases hstores : stores name property entry <;> simp [hstores]

theorem remembered_same {log : List (SettingCall × Bool)} {entry : SettingCall × Bool}
    (hstores : ∀ property, stores name property entry = none) (hdeclares : declares name entry = none) :
    remembered name (log ++ [entry]) = remembered name log := by
  rw [remembered_append]
  cases remembered name log with
  | none => exact hdeclares
  | some property =>
    dsimp only
    rw [hstores]
    rfl

end Remembered

/-! ## One call -/

section Set

variable (property : McpProperty)

theorem setBool_put (v : Bool) : mcpPropertySetBool property v = property.put (.boolean v) := by
  unfold mcpPropertySetBool McpProperty.put McpProperty.takes
  by_cases htype : property.type = .boolean <;> simp [htype, McpProperty.holding]

theorem setInt_put (v : Int32) : mcpPropertySetInt property v = property.put (.integer v) := by
  unfold McpProperty.put McpProperty.takes
  by_cases htype : property.type = .integer
  · rw [setInt_eq htype]
    simp [htype, McpProperty.holding]
  · simp [mcpPropertySetInt, htype]

theorem setString_put (memory : Bool) (value : Option CStr) :
    mcpPropertySetString memory property value =
      property.put (.string (utilsStrdup memory (some (value.getD ∅)))) := by
  obtain ⟨name, held, hasDefault, hasMin, hasMax, minValue, maxValue⟩ := property
  cases held with
  | string => cases memory <;> rfl
  | _ => rfl

theorem put_other {value : McpPropertyValue} (h : property.takes value = false) :
    property.put value = (false, property) := if_neg (Bool.eq_false_iff.mp h)

theorem setter_set (setter : Setter) : setter.set property =
    match setter.value with
    | some value => property.put value
    | none => (false, property) := by
  cases setter with
  | bool v => exact setBool_put property v
  | int v => exact setInt_put property v
  | string value memory => exact setString_put property memory value
  | json item memory =>
    have hother {value : McpPropertyValue} (h : property.takes value = false) :
        (false, property) = property.put value := (put_other property h).symm
    cases item with
    | none => rfl
    | some item =>
      -- A value of another type than the property's is not taken.
      unfold Setter.set mcpPropertyCopyFromJson
      cases hvalue : property.value <;> cases item <;> first
        | rfl
        | exact setBool_put property _
        | exact setInt_put property _
        | exact setString_put property memory _
        | exact hother (by simp [McpProperty.takes, McpProperty.type, hvalue])

end Set

theorem addProperty_adds {memory : AddMemory} (list : PropertyList) {name : Option CStr}
    {property : CStr → Option McpProperty} {declared : McpProperty}
    (hdeclared : ∀ n p, name = some n → property n = some p → p = declared) :
    addProperty memory (some list) name property = (false, some list) ∨
    ∃ capacity, addProperty memory (some list) name property =
      (true, some ⟨list.items ++ [propertyCopyFunc memory.copy declared], capacity⟩) := by
  cases name with
  | none => exact .inl rfl
  | some n =>
    simp only [addProperty]
    cases hbuilt : (utilsStrdup memory.name (some n)).bind property with
    | none => exact .inl rfl
    | some p =>
      dsimp only
      obtain ⟨m, hm, hp⟩ := Option.bind_eq_some_iff.mp hbuilt
      obtain ⟨-, hn⟩ := Option.ite_none_right_eq_some.mp hm
      obtain rfl := hdeclared m p hn hp
      rcases listAdd_cases memory.copy list p with hfails | ⟨capacity, hadds⟩
      · rw [hfails]
        exact .inl rfl
      · rw [hadds]
        exact .inr ⟨capacity, rfl⟩

theorem addCall_adds (memory : AddMemory) (list : PropertyList) (adder : AddCall) :
    adder.add memory (some list) = (false, some list) ∨
    ∃ capacity, adder.add memory (some list) =
      (true, some ⟨list.items ++ [propertyCopyFunc memory.copy adder.property], capacity⟩) := by
  cases adder with
  | bool name hasDefault defaultValue =>
    exact addProperty_adds list fun n p hn hp => by rw [← Option.some.inj hp, ← hn]; rfl
  | int name hasDefault defaultValue hasMin minValue hasMax maxValue =>
    exact addProperty_adds list fun n p hn hp => by rw [← Option.some.inj hp, ← hn]; rfl
  | string name defaultValue =>
    refine addProperty_adds list fun n p hn hp => ?_
    cases defaultValue with
    | none => rw [← Option.some.inj hp, ← hn]; rfl
    | some v =>
      obtain ⟨value, hvalue, rfl⟩ := Option.map_eq_some_iff.mp hp
      obtain ⟨-, hv⟩ := Option.ite_none_right_eq_some.mp hvalue
      rw [← hv, ← hn]
      rfl

theorem listCall_adds (call : ListCall) (list : PropertyList) : call.apply list = (false, list) ∨
    ∃ capacity, call.apply list =
      (true, ⟨list.items ++ [propertyCopyFunc call.memory.copy call.adder.property], capacity⟩) := by
  unfold ListCall.apply
  cases call.onList with
  | false =>
    rw [if_neg Bool.false_ne_true, addCall_null]
    exact .inl rfl
  | true =>
    rw [if_pos rfl]
    rcases addCall_adds call.memory list call.adder with hfails | ⟨capacity, hadds⟩
    · rw [hfails]
      exact .inl rfl
    · rw [hadds]
      exact .inr ⟨capacity, rfl⟩

/-! ## The list -/

section Find

variable {α : Type*} {p : α → Bool} {l : List α} {i : ℕ}

theorem exists_of_findIdx? (h : l.findIdx? p = some i) :
    ∃ a, l[i]? = some a ∧ p a = true ∧ l.find? p = some a ∧
      ∀ b, p b = true → (l.set i b).find? p = some b := by
  induction l generalizing i with
  | nil => exact absurd h.symm (Option.some_ne_none i)
  | cons x l ih =>
    rw [List.findIdx?_cons] at h
    cases hx : p x with
    | true =>
      rw [hx, if_pos rfl] at h
      obtain rfl := Option.some.inj h
      exact ⟨x, rfl, hx, by rw [List.find?_cons_of_pos hx], fun b hb => by
        rw [List.set_cons_zero, List.find?_cons_of_pos hb]⟩
    | false =>
      rw [hx, if_neg Bool.false_ne_true] at h
      obtain ⟨j, hj, rfl⟩ := Option.map_eq_some_iff.mp h
      obtain ⟨a, ha, hp, hfind, hset⟩ := ih hj
      have hx' : ¬p x = true := Bool.eq_false_iff.mp hx
      refine ⟨a, ha, hp, by rw [List.find?_cons_of_neg hx', hfind], fun b hb => ?_⟩
      rw [List.set_cons_succ, List.find?_cons_of_neg hx', hset b hb]

theorem find?_set_of_neg {a b : α} (hi : l[i]? = some a) (ha : p a = false) (hb : p b = false) :
    (l.set i b).find? p = l.find? p := by
  induction l generalizing i with
  | nil => rfl
  | cons x l ih =>
    cases i with
    | zero =>
      obtain rfl : x = a := Option.some.inj hi
      rw [List.set_cons_zero, List.find?_cons_of_neg (Bool.eq_false_iff.mp hb),
        List.find?_cons_of_neg (Bool.eq_false_iff.mp ha)]
    | succ i =>
      rw [List.set_cons_succ, List.find?_cons, List.find?_cons, ih hi]

end Find

section Step

variable {s : SetList} {name : CStr}

theorem set_holding (property : McpProperty) (setter : Setter) :
    (setter.set property).2 = property.holding (setter.value.filter property.takes) := by
  rw [setter_set]
  cases setter.value with
  | none => rfl
  | some value =>
    change (property.put value).2 = property.holding (if property.takes value then some value else none)
    unfold McpProperty.put
    split <;> rfl

theorem setProperty_cases (list : PropertyList) (name : CStr) (setter : Setter) :
    (MlinkDevice.mcpPropertyListGetConst list.items name = none ∧
      setProperty list (some name) setter = (false, list)) ∨
    ∃ i property, MlinkDevice.mcpPropertyListGetConst list.items name = some property ∧
      list.items[i]? = some property ∧ property.name = some name ∧
      setProperty list (some name) setter = ((setter.set property).1,
        { list with items := list.items.set i (setter.set property).2 }) ∧
      MlinkDevice.mcpPropertyListGetConst (list.items.set i (setter.set property).2) name =
        some (setter.set property).2 := by
  unfold setProperty MlinkDevice.mcpPropertyListGetConst
  dsimp only
  cases hfind : list.items.findIdx? fun property => property.name == some name with
  | none =>
    refine .inl ⟨List.find?_eq_none.mpr fun p hp => ?_, rfl⟩
    exact Bool.eq_false_iff.mp (List.findIdx?_eq_none_iff.mp hfind p hp)
  | some i =>
    obtain ⟨property, hi, hname, hfound, hset⟩ := exists_of_findIdx? hfind
    refine .inr ⟨i, property, hfound, hi, beq_iff_eq.mp hname, by simp only [hi], hset _ ?_⟩
    rw [set_holding, McpProperty.holding_name]
    exact hname

theorem setProperty_other (list : PropertyList) {target : CStr} (heq : target ≠ name)
    (setter : Setter) :
    MlinkDevice.mcpPropertyListGetConst (setProperty list (some target) setter).2.items name =
      MlinkDevice.mcpPropertyListGetConst list.items name := by
  rcases setProperty_cases list target setter with ⟨-, hset⟩ | ⟨i, property, -, hi, hname, hset, -⟩
  · rw [hset]
  · have hmisses : (some target == some name) = false := by simpa using heq
    rw [hset]
    refine find?_set_of_neg hi (by rw [hname, hmisses]) ?_
    rw [set_holding, McpProperty.holding_name, hname, hmisses]

/-- **Step.** -/
theorem call_remembered (h : ∀ name, MlinkDevice.mcpPropertyListGetConst s.list.items name =
    remembered name s.log) (call : SettingCall) (name : CStr) :
    MlinkDevice.mcpPropertyListGetConst (s.call call).list.items name =
      remembered name (s.call call).log := by
  unfold SetList.call SettingCall.apply
  cases call with
  | add call =>
    rcases listCall_adds call s.list with hfails | ⟨capacity, hadds⟩
    · simp only [hfails, h]
      exact (remembered_same (fun _ => rfl) rfl).symm
    · simp only [hadds, remembered_append, ← h]
      unfold MlinkDevice.mcpPropertyListGetConst
      rw [List.find?_append, List.find?_singleton]
      cases s.list.items.find? fun property => property.name == some name <;> rfl
  | set target setter =>
    cases target with
    | none => exact (h name).trans (remembered_same (fun _ => rfl) rfl).symm
    | some target =>
      by_cases heq : target = name
      · subst heq
        simp only [remembered_append, ← h]
        rcases setProperty_cases s.list target setter with ⟨hnone, hset⟩ |
          ⟨i, property, hfound, -, -, hset, hafter⟩
        · rw [hset, hnone]
          rfl
        · rw [hset, hfound, hafter, set_holding]
          simp only [stores, if_true]
      · have hother (property : McpProperty) (ok : Bool) :
            stores name property (.set (some target) setter, ok) = none := if_neg heq
        rw [remembered_same (fun property => hother property _) rfl, ← h]
        exact setProperty_other s.list heq setter

end Step

/-! ## Any calls -/

/-- **Run.** -/
theorem calls_remembered (calls : List SettingCall) {s : SetList}
    (h : ∀ name, MlinkDevice.mcpPropertyListGetConst s.list.items name = remembered name s.log) :
    ∀ name, MlinkDevice.mcpPropertyListGetConst (calls.foldl SetList.call s).list.items name =
      remembered name (calls.foldl SetList.call s).log := by
  induction calls generalizing s with
  | nil => exact h
  | cons call rest ih => exact ih (call_remembered h call)

/-- The list answers with what is remembered. A setter says yes when it finds a property that takes
its value, and a copy of a string gets memory; what it does not take changes nothing at all. -/
structure Remembers (log : List (SettingCall × Bool)) (list : PropertyList) : Prop where
  property : ∀ name, MlinkDevice.mcpPropertyListGetConst list.items name = remembered name log
  getBool : ∀ name out, mcpPropertyListGetBool (some list) (some name) out =
    answer ((remembered name log).bind McpProperty.heldBool) out
  getInt : ∀ name out, mcpPropertyListGetInt (some list) (some name) out =
    answer ((remembered name log).bind McpProperty.heldInt) out
  getString : ∀ name, mcpPropertyListGetString (some list) (some name) =
    (remembered name log).bind McpProperty.heldString
  set : ∀ name setter, (setProperty list (some name) setter).1 = true ↔ ∃ property value,
    remembered name log = some property ∧ setter.value = some value ∧
      property.takes value = true ∧ value ≠ .string none
  refused : ∀ name setter, (∀ property ∈ remembered name log, ∀ value ∈ setter.value,
    property.takes value = false) → setProperty list (some name) setter = (false, list)

section Getters

theorem getBool_held (items : List McpProperty) (name : CStr) :
    MlinkDevice.mcpPropertyListGetBool items name =
      (MlinkDevice.mcpPropertyListGetConst items name).bind McpProperty.heldBool := by
  unfold MlinkDevice.mcpPropertyListGetBool
  cases MlinkDevice.mcpPropertyListGetConst items name with
  | none => rfl
  | some property =>
    obtain ⟨_, value, hasDefault, -⟩ := property
    cases value <;> cases hasDefault <;> rfl

theorem getInt_held (items : List McpProperty) (name : CStr) :
    MlinkDevice.mcpPropertyListGetInt items name =
      (MlinkDevice.mcpPropertyListGetConst items name).bind McpProperty.heldInt := by
  unfold MlinkDevice.mcpPropertyListGetInt
  cases MlinkDevice.mcpPropertyListGetConst items name with
  | none => rfl
  | some property =>
    obtain ⟨_, value, hasDefault, -⟩ := property
    cases value <;> cases hasDefault <;> rfl

theorem getString_held (items : List McpProperty) (name : CStr) :
    MlinkDevice.mcpPropertyListGetString items name =
      (MlinkDevice.mcpPropertyListGetConst items name).bind McpProperty.heldString := by
  unfold MlinkDevice.mcpPropertyListGetString
  cases MlinkDevice.mcpPropertyListGetConst items name with
  | none => rfl
  | some property =>
    obtain ⟨_, value, hasDefault, -⟩ := property
    cases value <;> cases hasDefault <;> rfl

variable {log : List (SettingCall × Bool)} {list : PropertyList}

theorem set_result (h : ∀ name, MlinkDevice.mcpPropertyListGetConst list.items name =
    remembered name log) (name : CStr) (setter : Setter) :
    (setProperty list (some name) setter).1 = true ↔ ∃ property value,
      remembered name log = some property ∧ setter.value = some value ∧
        property.takes value = true ∧ value ≠ .string none := by
  rw [← h]
  rcases setProperty_cases list name setter with ⟨hnone, hset⟩ | ⟨i, property, hfound, -, -, hset, -⟩
  · rw [hset, hnone]
    exact ⟨fun hno => absurd hno Bool.false_ne_true, fun ⟨_, _, hno, _⟩ =>
      absurd hno.symm (Option.some_ne_none _)⟩
  · rw [hset, hfound, setter_set]
    cases setter.value with
    | none => simp
    | some value =>
      by_cases htakes : property.takes value = true
      · simp [McpProperty.put, htakes]
      · simp [McpProperty.put, htakes]

theorem set_refused (h : ∀ name, MlinkDevice.mcpPropertyListGetConst list.items name =
    remembered name log) {name : CStr} {setter : Setter}
    (hrefuses : ∀ property ∈ remembered name log, ∀ value ∈ setter.value,
      property.takes value = false) : setProperty list (some name) setter = (false, list) := by
  rcases setProperty_cases list name setter with ⟨-, hset⟩ | ⟨i, property, hfound, hi, -, hset, -⟩
  · exact hset
  · have hsame : setter.set property = (false, property) := by
      rw [setter_set]
      cases hvalue : setter.value with
      | none => rfl
      | some value => exact put_other property (hrefuses property ((h name).symm.trans hfound) value hvalue)
    obtain ⟨hlt, hget⟩ := List.getElem?_eq_some_iff.mp hi
    rw [hset, hsame]
    dsimp only
    rw [← hget, List.set_getElem_self]

theorem remembers_of (h : ∀ name, MlinkDevice.mcpPropertyListGetConst list.items name =
    remembered name log) : Remembers log list where
  property := h
  getBool name out := by rw [getBool_answer, getBool_held, h]
  getInt name out := by rw [getInt_answer, getInt_held, h]
  getString name := by rw [getString_answer, getString_held, h]
  set name setter := set_result h name setter
  refused name setter hrefuses := set_refused h hrefuses

end Getters

/-- Whatever is added to a list and set in it, and whichever allocations fail, the list remembers
under each name the first property that was put there and the last value that it took. A string to
set is not the one that the property has, which is freed before the copy is made. -/
theorem settings_remembered (calls : List SettingCall) :
    Remembers (calls.foldl SetList.call {}).log (calls.foldl SetList.call {}).list :=
  remembers_of (calls_remembered calls fun _ => rfl)

end MlinkDevice.Copying
