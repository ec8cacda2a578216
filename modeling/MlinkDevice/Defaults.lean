import MlinkDevice.Copying

/-!
# Declared defaults

The adders and typed getters of `mcp_property.c`, on a list that may fail to grow. A getter
answers from the first property of its name, whatever was added after it.
-/

open MlinkDevice.CStr

namespace MlinkDevice.Copying

/-! ## The adders -/

/-- Which allocations of one adder succeed: the duplicates of the name and the default for its
own property, and those for the copy in the list. -/
structure AddMemory where
  name : Bool
  value : Bool
  copy : CopyMemory

/-- The string duplicates of a copy succeed. The list may still fail to grow. -/
structure CopyMemory.Duplicates (memory : CopyMemory) : Prop where
  name : memory.name = true
  value : memory.value = true

structure AddMemory.Duplicates (memory : AddMemory) : Prop where
  name : memory.name = true
  value : memory.value = true
  copy : memory.copy.Duplicates

/-- The adders after their check for NULL. `property` is given the duplicated name. -/
def addProperty (memory : AddMemory) (list : Option PropertyList) (name : Option CStr)
    (property : CStr → Option McpProperty) : Bool × Option PropertyList :=
  match list, name with
  | some list, some name =>
    match (utilsStrdup memory.name (some name)).bind property with
    | none => (false, some list)
    | some property =>
      let (ok, list) := mcpPropertyListAdd memory.copy list property
      (ok, some list)
  | list, _ => (false, list)

def mcpPropertyListAddBool (memory : AddMemory) (list : Option PropertyList) (name : Option CStr)
    (hasDefault defaultValue : Bool) : Bool × Option PropertyList :=
  addProperty memory list name fun name =>
    some { name := some name, value := .boolean defaultValue, hasDefault }

def mcpPropertyListAddInt (memory : AddMemory) (list : Option PropertyList) (name : Option CStr)
    (hasDefault : Bool) (defaultValue : Int32) (hasMin : Bool) (minValue : Int32) (hasMax : Bool)
    (maxValue : Int32) : Bool × Option PropertyList :=
  addProperty memory list name fun name =>
    some { name := some name, value := .integer defaultValue, hasDefault,
           hasMin, minValue, hasMax, maxValue }

def mcpPropertyListAddString (memory : AddMemory) (list : Option PropertyList)
    (name defaultValue : Option CStr) : Bool × Option PropertyList :=
  addProperty memory list name fun name =>
    match defaultValue with
    | none => some { name := some name, value := .string none, hasDefault := false }
    | some value => (utilsStrdup memory.value (some value)).map fun value =>
        { name := some name, value := .string (some value), hasDefault := true }

/-! ## The getters -/

def mcpPropertyListGetConst (list : Option PropertyList) (name : Option CStr) :
    Option McpProperty :=
  match list, name with
  | some list, some name => MlinkDevice.mcpPropertyListGetConst list.items name
  | _, _ => none

/-- `out` is what `out_value` points to, if it is not NULL. -/
def mcpPropertyListGetBool (list : Option PropertyList) (name : Option CStr)
    (out : Option Bool) : Bool × Option Bool :=
  match mcpPropertyListGetConst list name with
  | some { value := .boolean b, hasDefault := true, .. } => (true, out.map fun _ => b)
  | _ => (false, out)

def mcpPropertyListGetInt (list : Option PropertyList) (name : Option CStr)
    (out : Option Int32) : Bool × Option Int32 :=
  match mcpPropertyListGetConst list name with
  | some { value := .integer v, hasDefault := true, .. } => (true, out.map fun _ => v)
  | _ => (false, out)

def mcpPropertyListGetString (list : Option PropertyList) (name : Option CStr) : Option CStr :=
  match mcpPropertyListGetConst list name with
  | some { value := .string s, hasDefault := true, .. } => s
  | _ => none

/-! ## Calls -/

end MlinkDevice.Copying

namespace MlinkDevice.AddCall

open Copying

def add (memory : AddMemory) (list : Option PropertyList) : AddCall → Bool × Option PropertyList
  | .bool name hasDefault defaultValue =>
    Copying.mcpPropertyListAddBool memory list name hasDefault defaultValue
  | .int name hasDefault defaultValue hasMin minValue hasMax maxValue =>
    Copying.mcpPropertyListAddInt memory list name hasDefault defaultValue hasMin minValue hasMax
      maxValue
  | .string name defaultValue => Copying.mcpPropertyListAddString memory list name defaultValue

def name : AddCall → Option CStr
  | .bool name .. => name
  | .int name .. => name
  | .string name _ => name

/-- The property that a call declares. -/
def property : AddCall → McpProperty
  | .bool name hasDefault defaultValue => { name, value := .boolean defaultValue, hasDefault }
  | .int name hasDefault defaultValue hasMin minValue hasMax maxValue =>
    { name, value := .integer defaultValue, hasDefault, hasMin, minValue, hasMax, maxValue }
  | .string name defaultValue =>
    { name, value := .string defaultValue, hasDefault := defaultValue.isSome }

/-- The declared default, for a boolean property that has one. -/
def boolDefault : AddCall → Option Bool
  | .bool _ true v => some v
  | _ => none

def intDefault : AddCall → Option Int32
  | .int _ true v .. => some v
  | _ => none

def stringDefault : AddCall → Option CStr
  | .string _ defaultValue => defaultValue
  | _ => none

end MlinkDevice.AddCall

namespace MlinkDevice.Copying

/-- A call of an adder, on the list or with NULL in its place. -/
structure ListCall where
  onList : Bool
  memory : AddMemory
  adder : AddCall

def ListCall.apply (call : ListCall) (list : PropertyList) : Bool × PropertyList :=
  let (ok, after) := call.adder.add call.memory (if call.onList then some list else none)
  (ok, after.getD list)

/-- A list with the calls made on it so far and what they returned. -/
structure CalledList where
  list : PropertyList := {}
  log : List (AddCall × Bool) := []

def CalledList.call (s : CalledList) (call : ListCall) : CalledList :=
  let (ok, list) := call.apply s.list
  { list, log := s.log ++ [(call.adder, ok)] }

/-- The first call that has added a property of that name. -/
def firstAdded (log : List (AddCall × Bool)) (name : CStr) : Option AddCall :=
  (log.find? fun entry => entry.2 && entry.1.name == some name).map Prod.fst

/-- What `mcp_property_list_add` returns in each round of a clone. -/
def cloneResults (memory : ℕ → CopyMemory) : PropertyList → List McpProperty → List Bool
  | _, [] => []
  | clone, property :: rest =>
    match mcpPropertyListAdd (memory clone.items.length) clone property with
    | (false, _) => [false]
    | (true, clone) => true :: cloneResults memory clone rest

/-! ## One call -/

theorem copy_duplicates {memory : CopyMemory} (h : memory.Duplicates) (property : McpProperty) :
    propertyCopyFunc memory property = property := by
  obtain ⟨items, name, value⟩ := memory
  obtain rfl : name = true := h.name
  obtain rfl : value = true := h.value
  exact MlinkDevice.propertyCopyFunc_eq property

theorem listAdd_cases (memory : CopyMemory) (list : PropertyList) (property : McpProperty) :
    mcpPropertyListAdd memory list property = (false, list) ∨
    ∃ capacity, mcpPropertyListAdd memory list property =
      (true, ⟨list.items ++ [propertyCopyFunc memory property], capacity⟩) := by
  unfold mcpPropertyListAdd listReserve
  by_cases hroom : list.items.length + 1 ≤ list.capacity
  · rw [if_pos hroom]
    exact .inr ⟨_, rfl⟩
  · rw [if_neg hroom]
    cases memory.items with
    | false => exact .inl rfl
    | true => exact .inr ⟨_, rfl⟩

theorem addProperty_cases {memory : AddMemory} (list : PropertyList) {name : Option CStr}
    {property : CStr → Option McpProperty} {declared : McpProperty}
    (hdeclared : memory.Duplicates → ∀ n, name = some n → property n = some declared) :
    addProperty memory (some list) name property = (false, some list) ∨
    ∃ p capacity, addProperty memory (some list) name property =
      (true, some ⟨list.items ++ [p], capacity⟩) ∧ (memory.Duplicates → p = declared) := by
  cases name with
  | none => exact .inl rfl
  | some n =>
    simp only [addProperty]
    cases hbuilt : (utilsStrdup memory.name (some n)).bind property with
    | none => exact .inl rfl
    | some p =>
      dsimp only
      rcases listAdd_cases memory.copy list p with hfails | ⟨capacity, hadds⟩
      · rw [hfails]
        exact .inl rfl
      · rw [hadds]
        refine .inr ⟨_, capacity, rfl, fun hdup => ?_⟩
        have hname : utilsStrdup memory.name (some n) = some n := if_pos hdup.name
        rw [hname, Option.bind_some, hdeclared hdup n rfl] at hbuilt
        rw [copy_duplicates hdup.copy, Option.some.inj hbuilt]

theorem addCall_cases (memory : AddMemory) (list : PropertyList) (adder : AddCall) :
    adder.add memory (some list) = (false, some list) ∨
    ∃ p capacity, adder.add memory (some list) = (true, some ⟨list.items ++ [p], capacity⟩) ∧
      (memory.Duplicates → p = adder.property) := by
  cases adder with
  | bool name hasDefault defaultValue =>
    exact addProperty_cases list fun _ n hn => by rw [hn]; rfl
  | int name hasDefault defaultValue hasMin minValue hasMax maxValue =>
    exact addProperty_cases list fun _ n hn => by rw [hn]; rfl
  | string name defaultValue =>
    refine addProperty_cases list fun hdup n hn => ?_
    cases defaultValue with
    | none => rw [hn]; rfl
    | some v =>
      have hvalue : utilsStrdup memory.value (some v) = some v := if_pos hdup.value
      simp only [hn, hvalue]
      rfl

theorem addCall_null (memory : AddMemory) (adder : AddCall) :
    adder.add memory none = (false, none) := by
  cases adder <;> rfl

/-- With memory to spare a call adds what it adds in the model without failures. -/
theorem addCall_plenty (list : PropertyList) (adder : AddCall) :
    (adder.add ⟨true, true, .plenty⟩ (some list)).2.map PropertyList.items =
      some (adder.run list.items) := by
  have hadd (property : McpProperty) :
      (mcpPropertyListAdd .plenty list property).2.items =
        (MlinkDevice.mcpPropertyListAdd list.items property).2 := by
    unfold mcpPropertyListAdd listReserve
    by_cases hroom : list.items.length + 1 ≤ list.capacity
    · rw [if_pos hroom]
      rfl
    · rw [if_neg hroom]
      rfl
  cases adder with
  | bool name hasDefault defaultValue =>
    cases name with
    | none => rfl
    | some name => exact congrArg some (hadd _)
  | int name hasDefault defaultValue hasMin minValue hasMax maxValue =>
    cases name with
    | none => rfl
    | some name => exact congrArg some (hadd _)
  | string name defaultValue =>
    cases name with
    | none => rfl
    | some name => cases defaultValue <;> exact congrArg some (hadd _)

theorem run_named (items : List McpProperty) {adder : AddCall} (h : adder.name ≠ none) :
    adder.run items = items ++ [adder.property] := by
  cases adder with
  | bool name hasDefault defaultValue =>
    obtain ⟨n, rfl⟩ := Option.ne_none_iff_exists'.mp h
    exact congrArg (fun p => items ++ [p]) (MlinkDevice.propertyCopyFunc_eq _)
  | int name hasDefault defaultValue hasMin minValue hasMax maxValue =>
    obtain ⟨n, rfl⟩ := Option.ne_none_iff_exists'.mp h
    exact congrArg (fun p => items ++ [p]) (MlinkDevice.propertyCopyFunc_eq _)
  | string name defaultValue =>
    obtain ⟨n, rfl⟩ := Option.ne_none_iff_exists'.mp h
    cases defaultValue <;> exact congrArg (fun p => items ++ [p]) (MlinkDevice.propertyCopyFunc_eq _)

theorem addCall_succeeds (list : PropertyList) {adder : AddCall} (h : adder.name ≠ none) :
    (adder.add ⟨true, true, .plenty⟩ (some list)).1 = true := by
  rcases addCall_cases ⟨true, true, .plenty⟩ list adder with hfails | ⟨p, capacity, hadds, -⟩
  · have hplenty := addCall_plenty list adder
    rw [hfails, run_named list.items h] at hplenty
    have hlength := congrArg List.length (Option.some.inj hplenty)
    simp at hlength
  · rw [hadds]

theorem ListCall.apply_cases (call : ListCall) (list : PropertyList) :
    call.apply list = (false, list) ∨
    ∃ p capacity, call.apply list = (true, ⟨list.items ++ [p], capacity⟩) ∧
      (call.memory.Duplicates → p = call.adder.property) := by
  unfold ListCall.apply
  cases call.onList with
  | false =>
    rw [if_neg Bool.false_ne_true, addCall_null]
    exact .inl rfl
  | true =>
    rw [if_pos rfl]
    rcases addCall_cases call.memory list call.adder with hfails | ⟨p, capacity, hadds, hp⟩
    · rw [hfails]
      exact .inl rfl
    · rw [hadds]
      exact .inr ⟨p, capacity, rfl, hp⟩

theorem ListCall.apply_fails {call : ListCall} {list : PropertyList}
    (h : (call.apply list).1 = false) : (call.apply list).2 = list := by
  rcases call.apply_cases list with hfails | ⟨p, capacity, hadds, -⟩
  · rw [hfails]
  · rw [hadds] at h
    exact Bool.noConfusion h

/-! ## Runs -/

/-- The properties that the calls of the log have added. -/
def declared (log : List (AddCall × Bool)) : List McpProperty :=
  (log.filter Prod.snd).map fun entry => entry.1.property

/-- **Step.** The list holds what was declared, in the order of the calls. -/
theorem call_declared {s : CalledList} (h : s.list.items = declared s.log) {call : ListCall}
    (hdup : call.memory.Duplicates) : (s.call call).list.items = declared (s.call call).log := by
  unfold CalledList.call declared
  rcases call.apply_cases s.list with hfails | ⟨p, capacity, hadds, hp⟩
  · rw [hfails]
    simpa [declared] using h
  · rw [hadds, hp hdup]
    simpa [declared] using h

/-- **Run.** -/
theorem calls_declared (calls : List ListCall) (hdup : ∀ call ∈ calls, call.memory.Duplicates)
    {s : CalledList} (h : s.list.items = declared s.log) :
    (calls.foldl CalledList.call s).list.items = declared (calls.foldl CalledList.call s).log := by
  induction calls generalizing s with
  | nil => exact h
  | cons call rest ih =>
    obtain ⟨hcall, hrest⟩ := List.forall_mem_cons.mp hdup
    exact ih hrest (call_declared h hcall)

/-! ## Getters -/

/-- What a getter does with the default it looks for. -/
def answer {α : Type} (found : Option α) (out : Option α) : Bool × Option α :=
  match found with
  | some v => (true, out.map fun _ => v)
  | none => (false, out)

section Getters

variable (list : PropertyList) (name : CStr)

theorem getBool_answer (out : Option Bool) :
    mcpPropertyListGetBool (some list) (some name) out =
      answer (MlinkDevice.mcpPropertyListGetBool list.items name) out := by
  unfold mcpPropertyListGetBool MlinkDevice.mcpPropertyListGetBool mcpPropertyListGetConst
  dsimp only
  generalize MlinkDevice.mcpPropertyListGetConst list.items name = found
  cases found with
  | none => rfl
  | some property =>
    obtain ⟨_, value, hasDefault, -⟩ := property
    cases value <;> cases hasDefault <;> rfl

theorem getInt_answer (out : Option Int32) :
    mcpPropertyListGetInt (some list) (some name) out =
      answer (MlinkDevice.mcpPropertyListGetInt list.items name) out := by
  unfold mcpPropertyListGetInt MlinkDevice.mcpPropertyListGetInt mcpPropertyListGetConst
  dsimp only
  generalize MlinkDevice.mcpPropertyListGetConst list.items name = found
  cases found with
  | none => rfl
  | some property =>
    obtain ⟨_, value, hasDefault, -⟩ := property
    cases value <;> cases hasDefault <;> rfl

theorem getString_answer :
    mcpPropertyListGetString (some list) (some name) =
      MlinkDevice.mcpPropertyListGetString list.items name := rfl

end Getters

theorem name_property (adder : AddCall) : adder.property.name = adder.name := by
  cases adder <;> rfl

section Declared

variable (log : List (AddCall × Bool)) (name : CStr)

theorem getConst_declared : MlinkDevice.mcpPropertyListGetConst (declared log) name =
    (firstAdded log name).map AddCall.property := by
  have hpred : ((fun property : McpProperty => property.name == some name) ∘
      fun entry : AddCall × Bool => entry.1.property) = fun entry => entry.1.name == some name := by
    funext entry
    rw [Function.comp, name_property]
  unfold MlinkDevice.mcpPropertyListGetConst declared firstAdded
  rw [List.find?_map, List.find?_filter, hpred, Option.map_map]
  simp only [Bool.decide_and, Bool.decide_eq_true]
  rfl

theorem getBool_declared : MlinkDevice.mcpPropertyListGetBool (declared log) name =
    (firstAdded log name).bind AddCall.boolDefault := by
  unfold MlinkDevice.mcpPropertyListGetBool
  rw [getConst_declared]
  cases firstAdded log name with
  | none => rfl
  | some adder =>
    cases adder with
    | bool _ hasDefault => cases hasDefault <;> rfl
    | _ => rfl

theorem getInt_declared : MlinkDevice.mcpPropertyListGetInt (declared log) name =
    (firstAdded log name).bind AddCall.intDefault := by
  unfold MlinkDevice.mcpPropertyListGetInt
  rw [getConst_declared]
  cases firstAdded log name with
  | none => rfl
  | some adder =>
    cases adder with
    | int _ hasDefault => cases hasDefault <;> rfl
    | _ => rfl

theorem getString_declared : MlinkDevice.mcpPropertyListGetString (declared log) name =
    (firstAdded log name).bind AddCall.stringDefault := by
  unfold MlinkDevice.mcpPropertyListGetString
  rw [getConst_declared]
  cases firstAdded log name with
  | none => rfl
  | some adder =>
    cases adder with
    | string _ defaultValue => cases defaultValue <;> rfl
    | _ => rfl

end Declared

/-! ## Clones -/

theorem cloneLoop_copies {memory : ℕ → CopyMemory} (hdup : ∀ i, (memory i).Duplicates)
    (source : List McpProperty) (clone : PropertyList)
    (hok : ∀ ok ∈ cloneResults memory clone source, ok = true) :
    (cloneLoop memory clone source).items = clone.items ++ source := by
  induction source generalizing clone with
  | nil => exact (List.append_nil _).symm
  | cons p rest ih =>
    unfold cloneResults at hok
    unfold cloneLoop
    rcases listAdd_cases (memory clone.items.length) clone p with hfails | ⟨capacity, hadds⟩
    · rw [hfails] at hok
      exact absurd (hok false List.mem_cons_self) Bool.false_ne_true
    · rw [hadds] at hok ⊢
      rw [copy_duplicates (hdup _)] at hok ⊢
      have hrest := ih _ fun ok hmem => hok ok (List.mem_cons_of_mem _ hmem)
      rw [List.append_assoc, List.singleton_append] at hrest
      exact hrest

/-! ## The association list -/

/-- Two lists that no typed getter tells apart. -/
def SameAnswers (list list' : PropertyList) : Prop :=
  ∀ name,
    (∀ out, mcpPropertyListGetBool (some list') name out =
      mcpPropertyListGetBool (some list) name out) ∧
    (∀ out, mcpPropertyListGetInt (some list') name out =
      mcpPropertyListGetInt (some list) name out) ∧
    mcpPropertyListGetString (some list') name = mcpPropertyListGetString (some list) name

theorem sameAnswers_of_items {list list' : PropertyList} (h : list'.items = list.items) :
    SameAnswers list list' := by
  intro name
  cases name with
  | none => exact ⟨fun _ => rfl, fun _ => rfl, rfl⟩
  | some name =>
    refine ⟨fun out => ?_, fun out => ?_, ?_⟩
    · rw [getBool_answer, getBool_answer, h]
    · rw [getInt_answer, getInt_answer, h]
    · rw [getString_answer, getString_answer, h]

/-- The list answers for the calls of the log: each getter gives the default of the first property
of that name that was added, if it has the getter's type and a default, and else fails and leaves
its output as it was. A call that fails changes no answer, and none fails that has the list, a name
and memory. A clone gives the same answers. -/
structure Associates (log : List (AddCall × Bool)) (list : PropertyList) : Prop where
  getBool : ∀ name out, mcpPropertyListGetBool (some list) (some name) out =
    answer ((firstAdded log name).bind AddCall.boolDefault) out
  getInt : ∀ name out, mcpPropertyListGetInt (some list) (some name) out =
    answer ((firstAdded log name).bind AddCall.intDefault) out
  getString : ∀ name, mcpPropertyListGetString (some list) (some name) =
    (firstAdded log name).bind AddCall.stringDefault
  failed : ∀ call : ListCall, (call.apply list).1 = false → SameAnswers list (call.apply list).2
  succeeds : ∀ call : ListCall, call.onList = true → call.memory = ⟨true, true, .plenty⟩ →
    call.adder.name ≠ none → (call.apply list).1 = true
  cloned : ∀ memory : ℕ → CopyMemory, (∀ i, (memory i).Duplicates) →
    (∀ ok ∈ cloneResults memory {} list.items, ok = true) →
      (cloneLoop memory {} list.items).items = list.items ∧
        SameAnswers list (cloneLoop memory {} list.items)

theorem declared_associates {log : List (AddCall × Bool)} {list : PropertyList}
    (h : list.items = declared log) : Associates log list where
  getBool name out := by rw [getBool_answer, h, getBool_declared]
  getInt name out := by rw [getInt_answer, h, getInt_declared]
  getString name := by rw [getString_answer, h, getString_declared]
  failed call hfails := sameAnswers_of_items (congrArg PropertyList.items (ListCall.apply_fails hfails))
  succeeds call honList hmemory hname := by
    rw [ListCall.apply, if_pos honList, hmemory]
    exact addCall_succeeds list hname
  cloned memory hdup hok := by
    have hitems := cloneLoop_copies hdup list.items {} hok
    exact ⟨hitems, sameAnswers_of_items hitems⟩

/-- After any calls of the adders whose string duplicates succeed the list is the association
list of those that have returned true. -/
theorem adds_associate (calls : List ListCall) (hdup : ∀ call ∈ calls, call.memory.Duplicates) :
    Associates (calls.foldl CalledList.call {}).log (calls.foldl CalledList.call {}).list :=
  declared_associates (calls_declared calls hdup rfl)

/-- The first add finds no memory for the list. The second then hides the third, which has a
default. -/
theorem adds_associate_hidden :
    let plenty : AddMemory := ⟨true, true, .plenty⟩
    let full : AddMemory := ⟨true, true, ⟨false, true, true⟩⟩
    let s := [⟨true, full, .bool (some (lit "on")) true false⟩,
        ⟨true, plenty, .string (some (lit "on")) none⟩,
        ⟨true, plenty, .int (some (lit "on")) true 7 false 0 false 0⟩].foldl CalledList.call {}
    s.log.map Prod.snd = [false, true, true] ∧
      mcpPropertyListGetInt (some s.list) (some (lit "on")) (some 1) = (false, some 1) := by
  intro plenty full s
  have h : Associates s.log s.list := adds_associate _ fun call hcall => by
    simp only [List.mem_cons, List.not_mem_nil, or_false] at hcall
    rcases hcall with rfl | rfl | rfl <;> exact ⟨rfl, rfl, rfl, rfl⟩
  have hfour : doubleUntil 1 4 = 4 := by simp [doubleUntil]
  have hlog : s.log = [(.bool (some (lit "on")) true false, false),
      (.string (some (lit "on")) none, true),
      (.int (some (lit "on")) true 7 false 0 false 0, true)] := by
    simp [s, plenty, full, CalledList.call, ListCall.apply, AddCall.add, mcpPropertyListAddBool,
      mcpPropertyListAddString, mcpPropertyListAddInt, addProperty, utilsStrdup,
      mcpPropertyListAdd, listReserve, CopyMemory.plenty, hfour]
  rw [h.getInt, hlog]
  decide

end MlinkDevice.Copying
