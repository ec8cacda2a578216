import MlinkDevice.Pointers.Arguments

/-!
# The getters with their pointers

`mcp_property_list_get_*` over allocated blocks. A string is a pointer into the list, which the
caller may read as long as the list is there.
-/

open MlinkDevice.Sep MlinkDevice.Sep.Assertion

namespace MlinkDevice

/-! ## Values -/

/-- The value of a property of that type that has one. -/
def McpProperty.boolValue (property : McpProperty) : Option Bool :=
  match property.value with
  | .boolean b => if property.hasDefault then some b else none
  | _ => none

def McpProperty.intValue (property : McpProperty) : Option Int32 :=
  match property.value with
  | .integer i => if property.hasDefault then some i else none
  | _ => none

def McpProperty.stringValue (property : McpProperty) : Option CStr :=
  match property.value with
  | .string s => if property.hasDefault then s else none
  | _ => none

theorem getBool_eq (ps : List McpProperty) (name : CStr) : mcpPropertyListGetBool ps name =
    (mcpPropertyListGetConst ps name).bind McpProperty.boolValue := by
  unfold mcpPropertyListGetBool
  rcases mcpPropertyListGetConst ps name with - | ⟨_, value, hasDefault, _, _, _, _⟩
  · rfl
  · cases value <;> cases hasDefault <;> rfl

theorem getInt_eq (ps : List McpProperty) (name : CStr) : mcpPropertyListGetInt ps name =
    (mcpPropertyListGetConst ps name).bind McpProperty.intValue := by
  unfold mcpPropertyListGetInt
  rcases mcpPropertyListGetConst ps name with - | ⟨_, value, hasDefault, _, _, _, _⟩
  · rfl
  · cases value <;> cases hasDefault <;> rfl

theorem getString_eq (ps : List McpProperty) (name : CStr) : mcpPropertyListGetString ps name =
    (mcpPropertyListGetConst ps name).bind McpProperty.stringValue := by
  unfold mcpPropertyListGetString
  rcases mcpPropertyListGetConst ps name with - | ⟨_, value, hasDefault, _, _, _, _⟩
  · rfl
  · cases value <;> cases hasDefault <;> rfl

end MlinkDevice

namespace MlinkDevice.Pointers

/-! ## The functions -/

/-- The loop of `mcp_property_list_get_const`, from the item `i` on with `n` items left. -/
def getConstItems (list : PropertyList) (name : CStr) : ℕ → ℕ → Prog Block (Option Property)
  | _, 0 => return none
  | i, n + 1 => do
    let property ← getItem list i
    if (← readString property.name) = some name then return some property
    else getConstItems list name (i + 1) n

def mcpPropertyListGetConst (list : PropertyList) (name : CStr) : Prog Block (Option Property) :=
  getConstItems list name 0 list.count

/-- The value of a property of that type that has one. -/
def Property.boolValue (property : Property) : Option Bool :=
  match property.value with
  | .boolean b => if property.hasDefault then some b else none
  | _ => none

def Property.intValue (property : Property) : Option Int32 :=
  match property.value with
  | .integer i => if property.hasDefault then some i else none
  | _ => none

def Property.stringValue (property : Property) : Option Addr :=
  match property.value with
  | .string p => if property.hasDefault then p else none
  | _ => none

def mcpPropertyListGetBool (list : PropertyList) (name : CStr) : Prog Block (Option Bool) := do
  return (← mcpPropertyListGetConst list name).bind Property.boolValue

def mcpPropertyListGetInt (list : PropertyList) (name : CStr) : Prog Block (Option Int32) := do
  return (← mcpPropertyListGetConst list name).bind Property.intValue

def mcpPropertyListGetString (list : PropertyList) (name : CStr) : Prog Block (Option Addr) := do
  return (← mcpPropertyListGetConst list name).bind Property.stringValue

/-! ## What they find -/

/-- The item is that of the first property of the name, or there is none. -/
def Found (items : List Property) (ps : List McpProperty) (name : CStr) (r : Option Property) :
    Prop :=
  (r = none ∧ MlinkDevice.mcpPropertyListGetConst ps name = none) ∨
    ∃ (i : ℕ) (item : Property) (p : McpProperty), items[i]? = some item ∧ ps[i]? = some p ∧
      r = some item ∧ MlinkDevice.mcpPropertyListGetConst ps name = some p

/-- **Run.** From the item `i` on, with no property of the name before it. -/
theorem getConstItems_triple (list : PropertyList) (items : List Property)
    (done rest : List McpProperty) (name : CStr)
    (hdone : MlinkDevice.mcpPropertyListGetConst done name = none) :
    Triple (arrayAt list items * itemsAt items (done ++ rest))
      (getConstItems list name done.length rest.length) fun r =>
        fact (Found items (done ++ rest) name r) *
          (arrayAt list items * itemsAt items (done ++ rest)) := by
  induction rest generalizing done with
  | nil =>
    refine Triple.ret none ?_
    rw [fact_of (.inl ⟨rfl, by rwa [List.append_nil]⟩), one_mul]
  | cons p rest ih =>
    refine exists_items fun hlength => ?_
    have hp : (done ++ p :: rest)[done.length]? = some p := by simp
    obtain ⟨item, hitem⟩ : ∃ item, items[done.length]? = some item :=
      ⟨_, List.getElem?_eq_getElem (by simp [hlength])⟩
    obtain ⟨K, hfocus, -⟩ := itemsAt_focus hitem hp
    refine Triple.call (getItem_triple hitem) _ rfl fun got => ?_
    rw [mul_assoc]
    refine Triple.fact_pre fun hgot => ?_
    subst hgot
    have howned : itemsAt items (done ++ p :: rest) = stringAt got.name p.name *
        (fact (got.toFlags = p.flags) * valueAt p.hasDefault got.value p.value * K) := by
      rw [hfocus, propertyAt]
      ac_rfl
    refine Triple.call (readString_triple got.name p.name) (arrayAt list items *
      (fact (got.toFlags = p.flags) * valueAt p.hasDefault got.value p.value * K))
      (by rw [howned]; ac_rfl) fun read => ?_
    rw [mul_assoc]
    refine Triple.fact_pre fun hread => ?_
    subst hread
    rw [mul_left_comm, ← howned]
    by_cases hname : p.name = some name
    · rw [if_pos hname]
      refine Triple.ret (some got) ?_
      rw [fact_of, one_mul]
      refine .inr ⟨done.length, got, p, hitem, hp, rfl, ?_⟩
      rw [MlinkDevice.mcpPropertyListGetConst] at hdone ⊢
      rw [List.find?_append, hdone, List.find?_cons_of_pos (by simpa using hname)]
      rfl
    · rw [if_neg hname]
      have hnext : MlinkDevice.mcpPropertyListGetConst (done ++ [p]) name = none := by
        rw [MlinkDevice.mcpPropertyListGetConst] at hdone ⊢
        rw [List.find?_append, hdone, List.find?_cons_of_neg (by simpa using hname)]
        rfl
      have hrun := ih (done ++ [p]) hnext
      simpa only [List.append_assoc, List.singleton_append, List.length_append,
        List.length_singleton] using hrun

theorem mcpPropertyListGetConst_triple (list : PropertyList) (items : List Property)
    (ps : List McpProperty) (name : CStr) (hcount : ps.length = list.count) :
    Triple (arrayAt list items * itemsAt items ps) (mcpPropertyListGetConst list name) fun r =>
      fact (Found items ps name r) * (arrayAt list items * itemsAt items ps) := by
  have hrun := getConstItems_triple list items [] ps name rfl
  rwa [List.nil_append, hcount] at hrun

theorem found_triple {α : Type} {list : PropertyList} {l : Copying.PropertyList} {name : CStr}
    {c : Option Property → Prog Block α} {Q : α → Assertion Block}
    (hnone : MlinkDevice.mcpPropertyListGetConst l.items name = none →
      Triple (listAt list l) (c none) Q)
    (hsome : ∀ item p K, MlinkDevice.mcpPropertyListGetConst l.items name = some p →
      propertyAt item p * K ≤ listAt list l → Triple (propertyAt item p * K) (c (some item)) Q) :
    Triple (listAt list l) (mcpPropertyListGetConst list name >>= c) Q := by
  rw [← one_mul (listAt list l)]
  refine exists_list fun items hcapacity hcount hlength => ?_
  rw [one_mul]
  refine Triple.bind (mcpPropertyListGetConst_triple list items l.items name
    (hlength.symm.trans hcount)) fun r => Triple.fact_pre fun hfound => ?_
  have hlist := listAt_of hcapacity items
  rcases hfound with ⟨rfl, hget⟩ | ⟨i, item, p, hitem, hp, rfl, hget⟩
  · exact (hnone hget).pre hlist
  · obtain ⟨K, hfocus, -⟩ := itemsAt_focus hitem hp
    have howned : arrayAt list items * itemsAt items l.items =
        propertyAt item p * (arrayAt list items * K) := by
      rw [hfocus]
      ac_rfl
    rw [howned] at hlist ⊢
    exact hsome item p _ hget hlist

theorem propertyAt_values (item : Property) (p : McpProperty) : propertyAt item p =
    fact (item.boolValue = p.boolValue ∧ item.intValue = p.intValue) * propertyAt item p := by
  refine eq_fact_mul fun k hk => ?_
  obtain ⟨hflags, -, l, -, -, -, hvalue⟩ := fact_mul_apply.mp hk
  have hdefault : item.hasDefault = p.hasDefault := congrArg Flags.hasDefault hflags
  unfold Property.boolValue Property.intValue McpProperty.boolValue McpProperty.intValue
  rw [hdefault]
  cases hv : item.value with
  | boolean b =>
    cases hw : p.value with
    | boolean c =>
      rw [hv, hw] at hvalue
      obtain ⟨rfl, -⟩ := iSup_holds.mp hvalue
      exact ⟨rfl, rfl⟩
    | _ => rw [hv, hw] at hvalue; exact hvalue.elim
  | integer i =>
    cases hw : p.value with
    | integer j =>
      rw [hv, hw] at hvalue
      obtain ⟨rfl, -⟩ := iSup_holds.mp hvalue
      exact ⟨rfl, rfl⟩
    | _ => rw [hv, hw] at hvalue; exact hvalue.elim
  | string q =>
    cases hw : p.value with
    | string s => exact ⟨rfl, rfl⟩
    | _ => rw [hv, hw] at hvalue; exact hvalue.elim

theorem propertyAt_string (item : Property) (p : McpProperty) :
    ∃ K, propertyAt item p = stringAt item.stringValue p.stringValue * K := by
  have hbot (h : propertyAt item p = ⊥) :
      ∃ K, propertyAt item p = stringAt item.stringValue p.stringValue * K :=
    ⟨⊥, by rw [h, Quantale.mul_bot]⟩
  have hnone (h : item.stringValue = none) (h' : p.stringValue = none) :
      ∃ K, propertyAt item p = stringAt item.stringValue p.stringValue * K :=
    ⟨_, by rw [h, h', stringAt_none, one_mul]⟩
  by_cases hflags : item.toFlags = p.flags
  · have hdefault : item.hasDefault = p.hasDefault := congrArg Flags.hasDefault hflags
    unfold Property.stringValue McpProperty.stringValue at hnone ⊢
    rw [propertyAt_eq hflags] at hbot ⊢
    rw [hdefault] at hnone ⊢
    cases hv : item.value with
    | string q =>
      cases hw : p.value with
      | string s =>
        cases hhas : p.hasDefault with
        | true => exact ⟨stringAt item.name p.name, mul_comm _ _⟩
        | false => exact ⟨_, (one_mul _).symm⟩
      | _ => exact ⟨⊥, by simp [valueAt]⟩
    | boolean b =>
      cases hw : p.value with
      | string s => exact ⟨⊥, by simp [valueAt]⟩
      | _ => exact ⟨_, (one_mul _).symm⟩
    | integer i =>
      cases hw : p.value with
      | string s => exact ⟨⊥, by simp [valueAt]⟩
      | _ => exact ⟨_, (one_mul _).symm⟩
  · exact ⟨⊥, by rw [propertyAt, fact_of_not hflags, Quantale.bot_mul, Quantale.mul_bot]⟩

/-! ## The getters -/

theorem mcpPropertyListGetBool_triple (list : PropertyList) (l : Copying.PropertyList)
    (name : CStr) :
    Triple (listAt list l) (mcpPropertyListGetBool list name) fun r =>
      fact (r = MlinkDevice.mcpPropertyListGetBool l.items name) * listAt list l := by
  rw [getBool_eq]
  refine found_triple (fun hget => ?_) fun item p K hget hlist => ?_
  · rw [hget]
    exact Triple.ret none (by simp [fact_of])
  · rw [hget, propertyAt_values, mul_assoc]
    refine Triple.fact_pre fun hvalues => Triple.ret item.boolValue ?_
    rwa [Option.bind_some, fact_of hvalues.1, one_mul]

theorem mcpPropertyListGetInt_triple (list : PropertyList) (l : Copying.PropertyList)
    (name : CStr) :
    Triple (listAt list l) (mcpPropertyListGetInt list name) fun r =>
      fact (r = MlinkDevice.mcpPropertyListGetInt l.items name) * listAt list l := by
  rw [getInt_eq]
  refine found_triple (fun hget => ?_) fun item p K hget hlist => ?_
  · rw [hget]
    exact Triple.ret none (by simp [fact_of])
  · rw [hget, propertyAt_values, mul_assoc]
    refine Triple.fact_pre fun hvalues => Triple.ret item.intValue ?_
    rwa [Option.bind_some, fact_of hvalues.2, one_mul]

theorem mcpPropertyListGetString_triple (list : PropertyList) (l : Copying.PropertyList)
    (name : CStr) :
    Triple (listAt list l) (do readString (← mcpPropertyListGetString list name)) fun r =>
      fact (r = MlinkDevice.mcpPropertyListGetString l.items name) * listAt list l := by
  rw [getString_eq]
  unfold mcpPropertyListGetString
  rw [bind_assoc]
  refine found_triple (fun hget => ?_) fun item p K hget hlist => ?_
  · rw [hget]
    exact Triple.ret none (by simp [fact_of])
  · obtain ⟨K', howned⟩ := propertyAt_string item p
    rw [hget]
    have hread := readString_triple item.stringValue p.stringValue
    refine Triple.last hread (K' * K) (by rw [howned]; ac_rfl) fun r => ?_
    rw [mul_assoc]
    refine mul_le_mul_right (le_trans (le_of_eq ?_) hlist) _
    rw [howned]
    ac_rfl

end MlinkDevice.Pointers
