import MlinkDevice.Pointers.Property

/-!
# What a property list owns

The strings of a property, the array of a list and the strings of its items are blocks of their
own, and they hold the list that the functions on values compute with. One spec per function.
-/

open MlinkDevice.Sep MlinkDevice.Sep.Assertion

namespace MlinkDevice.Pointers

variable {α : Type}

/-! ## Assertions -/

/-- The pointer is NULL, or to a block with that string. -/
def stringAt (p : Option Addr) (s : Option CStr) : Assertion Block := optionally p (s.map .string)

/-- A string that is no default is NULL. -/
def valueAt (hasDefault : Bool) : Value → McpPropertyValue → Assertion Block
  | .boolean b, .boolean c => fact (b = c)
  | .integer i, .integer j => fact (i = j)
  | .string p, .string s =>
    if hasDefault then stringAt p s else fact (p = none ∧ s = none)
  | _, _ => ⊥

end MlinkDevice.Pointers

/-- The members of the property that need no memory of their own. -/
def MlinkDevice.McpProperty.flags (p : MlinkDevice.McpProperty) : MlinkDevice.Pointers.Flags where
  hasDefault := p.hasDefault
  hasMin := p.hasMin
  hasMax := p.hasMax
  minValue := p.minValue
  maxValue := p.maxValue

namespace MlinkDevice.Pointers

/-- The item is that property, with the strings it points to. -/
def propertyAt (item : Property) (p : McpProperty) : Assertion Block :=
  fact (item.toFlags = p.flags) *
    (stringAt item.name p.name * valueAt p.hasDefault item.value p.value)

def itemsAt : List Property → List McpProperty → Assertion Block
  | [], [] => 1
  | item :: items, p :: ps => propertyAt item p * itemsAt items ps
  | _, _ => ⊥

/-- The array of the list, with these items in use. -/
def arrayAt (list : PropertyList) (items : List Property) : Assertion Block :=
  fact (items.length = list.count) *
    match list.items with
    | none => fact (items = [] ∧ list.capacity = 0)
    | some a => pointsTo a (.items list.capacity items)

/-- The list is that one, with its array and all strings. -/
def listAt (list : PropertyList) (l : Copying.PropertyList) : Assertion Block :=
  fact (list.capacity = l.capacity) * ⨆ items, arrayAt list items * itemsAt items l.items

/-! ## Strings -/

@[simp]
theorem stringAt_none : stringAt none none = 1 := rfl

@[simp]
theorem stringAt_some (a : Addr) (s : CStr) : stringAt (some a) (some s) = pointsTo a (.string s) :=
  rfl

theorem readString_triple (p : Option Addr) (s : Option CStr) :
    Triple (stringAt p s) (readString p) fun r => fact (r = s) * stringAt p s := by
  match p, s with
  | none, none => exact Triple.ret none (by simp [fact_of])
  | none, some s => exact triple_bot
  | some a, none => exact triple_bot
  | some a, some s =>
    refine Triple.load (mul_one _).symm ?_
    exact Triple.ret (some s) (by simp [fact_of])

theorem utilsStrdup_triple (s : Option CStr) :
    Triple 1 (utilsStrdup s) fun r => ⨆ memory, stringAt r (Copying.utilsStrdup memory s) := by
  cases s with
  | none =>
    refine Triple.ret none ?_
    exact le_iSup_of_le true (le_of_eq rfl)
  | some s =>
    refine (malloc_triple (Block.string s)).post fun r => ?_
    cases r with
    | none => exact le_iSup_of_le false (le_of_eq rfl)
    | some a => exact le_iSup_of_le true (le_of_eq rfl)

theorem free_stringAt (p : Option Addr) (s : Option CStr) :
    Triple (stringAt p s) (free p) fun _ => 1 :=
  free_optionally p (s.map Block.string)

/-! ## Properties -/

theorem propertyAt_eq {item : Property} {p : McpProperty} (h : item.toFlags = p.flags) :
    propertyAt item p = stringAt item.name p.name * valueAt p.hasDefault item.value p.value := by
  rw [propertyAt, fact_of h, one_mul]

theorem propertyAt_copy {item : Property} {p : McpProperty} (h : item.toFlags = p.flags)
    (memory : Copying.CopyMemory) (name : Option Addr) (value : Value) :
    propertyAt { item with name, value } (Copying.propertyCopyFunc memory p) =
      stringAt name (Copying.utilsStrdup memory.name p.name) *
        valueAt p.hasDefault value (Copying.propertyCopyFunc memory p).value :=
  propertyAt_eq h

theorem valueAt_mul_self {hasDefault : Bool} {v : Value} {value : McpPropertyValue}
    (h : ∀ q, v = .string q → hasDefault = false) :
    valueAt hasDefault v value * valueAt hasDefault v value = valueAt hasDefault v value := by
  cases v with
  | boolean b => cases value <;> simp [valueAt, fact_mul_self]
  | integer i => cases value <;> simp [valueAt, fact_mul_self]
  | string q => cases value <;> simp [valueAt, h q rfl, fact_mul_self]

theorem copy_value (memory : Copying.CopyMemory) (p : McpProperty) :
    (∀ s, p.value = .string s → p.hasDefault = true →
      (Copying.propertyCopyFunc memory p).value = .string (Copying.utilsStrdup memory.value s)) ∧
    ((∀ s, p.value = .string s → p.hasDefault = false) →
      (Copying.propertyCopyFunc memory p).value = p.value) := by
  refine ⟨fun s hs hdefault => by simp [Copying.propertyCopyFunc, hs, hdefault], fun h => ?_⟩
  cases hvalue : p.value with
  | boolean b => simp [Copying.propertyCopyFunc, hvalue]
  | integer i => simp [Copying.propertyCopyFunc, hvalue]
  | string s => simp [Copying.propertyCopyFunc, hvalue, h s hvalue]

theorem propertyCopyFunc_triple (item : Property) (p : McpProperty) :
    Triple (propertyAt item p) (propertyCopyFunc item) fun copy =>
      ⨆ memory, propertyAt item p * propertyAt copy (Copying.propertyCopyFunc memory p) := by
  refine Triple.fact_pre fun hflags => ?_
  refine Triple.call (readString_triple item.name p.name) _ rfl fun read => ?_
  rw [mul_assoc]
  refine Triple.fact_pre fun hread => ?_
  subst hread
  refine Triple.call (utilsStrdup_triple p.name) _ (one_mul _).symm fun name => ?_
  rw [Quantale.iSup_mul_distrib]
  refine Triple.exists_pre fun nameMemory => ?_
  have hdefault : item.hasDefault = p.hasDefault := congrArg Flags.hasDefault hflags
  have hdone (memory : Copying.CopyMemory) (hname : memory.name = nameMemory) (value : Value) :
      stringAt name (Copying.utilsStrdup nameMemory p.name) * (stringAt item.name p.name *
        (valueAt p.hasDefault item.value p.value *
          valueAt p.hasDefault value (Copying.propertyCopyFunc memory p).value)) ≤
      ⨆ memory, propertyAt item p *
        propertyAt { item with name, value } (Copying.propertyCopyFunc memory p) := by
    refine le_iSup_of_le memory (le_of_eq ?_)
    rw [propertyAt_eq hflags, propertyAt_copy hflags, hname]
    ac_rfl
  have hplain (h : ∀ q, item.value = .string q → p.hasDefault = false) :
      stringAt name (Copying.utilsStrdup nameMemory p.name) *
        (stringAt item.name p.name * valueAt p.hasDefault item.value p.value) ≤
      ⨆ memory, propertyAt item p *
        propertyAt { item with name } (Copying.propertyCopyFunc memory p) := by
    by_cases hvalue : ∀ s, p.value = .string s → p.hasDefault = false
    · have hsame := hdone ⟨true, nameMemory, true⟩ rfl item.value
      rwa [(copy_value _ p).2 hvalue, valueAt_mul_self h] at hsame
    · push Not at hvalue
      obtain ⟨s, hs, hstring⟩ := hvalue
      have hbot : valueAt p.hasDefault item.value p.value = ⊥ := by
        cases hv : item.value with
        | boolean b => rw [hs]; rfl
        | integer i => rw [hs]; rfl
        | string q => exact absurd (h q hv) hstring
      rw [hbot, Quantale.mul_bot, Quantale.mul_bot]
      exact bot_le
  split
  · next q hq =>
    split
    · next hitem =>
      rw [hdefault] at hitem
      cases hvalue : p.value with
      | boolean b => exact triple_bot.pre (by simp [hq, valueAt])
      | integer i => exact triple_bot.pre (by simp [hq, valueAt])
      | string s =>
        have howned : valueAt p.hasDefault item.value (.string s) = stringAt q s := by
          simp [hq, valueAt, hitem]
        refine Triple.call (readString_triple q s)
          (stringAt name (Copying.utilsStrdup nameMemory p.name) * stringAt item.name p.name)
          ?_ fun read => ?_
        · rw [howned]
          ac_rfl
        rw [mul_assoc]
        refine Triple.fact_pre fun hread => ?_
        subst hread
        refine Triple.call (utilsStrdup_triple read) _ (one_mul _).symm fun value => ?_
        rw [Quantale.iSup_mul_distrib]
        refine Triple.exists_pre fun valueMemory => ?_
        refine Triple.ret _ (le_trans (le_of_eq ?_)
          (hdone ⟨true, nameMemory, valueMemory⟩ rfl (.string value)))
        rw [(copy_value _ p).1 read hvalue hitem, hvalue, howned]
        simp only [valueAt, hitem, if_true]
        ac_rfl
    · next hitem =>
      refine Triple.ret _ (hplain fun _ _ => ?_)
      rw [← hdefault]
      exact Bool.eq_false_of_not_eq_true hitem
  · next hq => exact Triple.ret _ (hplain fun q h => absurd h (hq q))

theorem freeValue_triple {item : Property} {p : McpProperty}
    (h : item.hasDefault = p.hasDefault) :
    Triple (valueAt p.hasDefault item.value p.value) (freeValue item) fun _ => 1 := by
  unfold freeValue
  cases item.value with
  | boolean b =>
    cases p.value with
    | boolean c => exact Triple.ret () (fact_le _)
    | integer i => exact triple_bot
    | string s => exact triple_bot
  | integer i =>
    cases p.value with
    | boolean c => exact triple_bot
    | integer j => exact Triple.ret () (fact_le _)
    | string s => exact triple_bot
  | string q =>
    cases p.value with
    | boolean c => exact triple_bot
    | integer j => exact triple_bot
    | string s =>
      rw [h, valueAt]
      split
      · exact free_stringAt q s
      · exact Triple.ret () (fact_le _)

theorem propertyFreeFunc_triple (item : Property) (p : McpProperty) :
    Triple (propertyAt item p) (propertyFreeFunc item) fun r => fact (r = {}) := by
  refine Triple.fact_pre fun hflags => ?_
  refine Triple.call (free_stringAt item.name p.name) _ rfl fun _ => ?_
  rw [one_mul]
  refine Triple.bind (freeValue_triple (congrArg Flags.hasDefault hflags)) fun _ => ?_
  exact Triple.ret _ (by rw [fact_of rfl])

/-! ## Arrays -/

theorem arrayAt_none {list : PropertyList} (h : list.items = none) (items : List Property) :
    arrayAt list items = fact (items.length = list.count) *
      fact (items = [] ∧ list.capacity = 0) := by
  rw [arrayAt, h]

theorem arrayAt_some {list : PropertyList} {a : Addr} (h : list.items = some a)
    (items : List Property) : arrayAt list items =
      fact (items.length = list.count) * pointsTo a (.items list.capacity items) := by
  rw [arrayAt, h]

theorem exists_array {list : PropertyList} {items : List Property} {c : Prog Block α}
    {Q : α → Assertion Block} (hitems : items ≠ [] ∨ 0 < list.capacity)
    (h : ∀ a, list.items = some a → items.length = list.count →
      Triple (pointsTo a (.items list.capacity items)) c Q) :
    Triple (arrayAt list items) c Q := by
  cases ha : list.items with
  | none =>
    rw [arrayAt_none ha]
    refine Triple.fact_pre fun _ => Triple.of_fact fun hnone => ?_
    rcases hitems with hne | hlt
    · exact absurd hnone.1 hne
    · omega
  | some a =>
    rw [arrayAt_some ha]
    exact Triple.fact_pre fun hcount => h a ha hcount

theorem readItems_triple {list : PropertyList} {a : Addr} (ha : list.items = some a)
    (items : List Property) :
    Triple (pointsTo a (.items list.capacity items)) (readItems list) fun r =>
      fact (r = (list.capacity, items)) * pointsTo a (.items list.capacity items) := by
  unfold readItems
  rw [ha]
  refine Triple.load (mul_one _).symm (Triple.ret _ ?_)
  rw [fact_of rfl, one_mul, mul_one]

theorem getItem_triple {list : PropertyList} {items : List Property} {i : ℕ} {item : Property}
    (hitem : items[i]? = some item) : Triple (arrayAt list items) (getItem list i) fun r =>
      fact (r = item) * arrayAt list items := by
  have hne : items ≠ [] := by
    rintro rfl
    simp at hitem
  refine exists_array (.inl hne) fun a ha hcount => ?_
  refine Triple.bind (readItems_triple ha items) fun r => Triple.fact_pre fun hr => ?_
  subst hr
  simp only [hitem]
  refine Triple.ret item ?_
  rw [fact_of rfl, one_mul, arrayAt_some ha, fact_of hcount, one_mul]

theorem setItem_triple {list : PropertyList} {items : List Property} {i : ℕ}
    (hi : i < items.length) (item : Property) :
    Triple (arrayAt list items) (setItem list i item) fun _ => arrayAt list (items.set i item) := by
  refine exists_array (.inl (List.ne_nil_of_length_pos (Nat.zero_lt_of_lt hi))) fun a ha hcount => ?_
  refine Triple.bind (readItems_triple ha items) fun r => Triple.fact_pre fun hr => ?_
  subst hr
  simp only [ha, if_pos hi]
  refine (store_triple a _ _).post fun _ => ?_
  rw [arrayAt_some ha, fact_of (by rw [List.length_set, hcount]), one_mul]

theorem setItem_next_triple {list : PropertyList} {items : List Property}
    (hroom : list.count < list.capacity) (item : Property) :
    Triple (arrayAt list items) (setItem list list.count item) fun _ =>
      arrayAt { list with count := list.count + 1 } (items ++ [item]) := by
  refine exists_array (.inr (Nat.zero_lt_of_lt hroom)) fun a ha hcount => ?_
  refine Triple.bind (readItems_triple ha items) fun r => Triple.fact_pre fun hr => ?_
  subst hr
  simp only [ha, if_neg (Nat.not_lt.mpr (Nat.le_of_eq hcount)), if_pos (And.intro hcount.symm hroom)]
  refine (store_triple a _ _).post fun _ => ?_
  rw [arrayAt_some rfl, fact_of (by rw [List.length_append, List.length_singleton, hcount]),
    one_mul]

/-- What a reserve gives when its allocation, if it makes one, ends like that. -/
def Reserved (list : PropertyList) (required : ℕ) (memory : Bool) (r : Bool × PropertyList) : Prop :=
  r.2.count = list.count ∧ ∀ xs, Copying.listReserve memory ⟨xs, list.capacity⟩ required =
    (r.1, ⟨xs, r.2.capacity⟩)

theorem listReserve_triple (list : PropertyList) (items : List Property) (required : ℕ) :
    Triple (arrayAt list items) (listReserve list required) fun r =>
      ⨆ memory, fact (Reserved list required memory r) * arrayAt r.2 items := by
  unfold listReserve
  by_cases hroom : required ≤ list.capacity
  · rw [if_pos hroom]
    refine Triple.ret _ (le_iSup_of_le true ?_)
    rw [fact_of ⟨rfl, fun xs => by rw [Copying.listReserve, if_pos hroom]⟩, one_mul]
  · rw [if_neg hroom]
    have hreserved (memory : Bool) (r : Bool × PropertyList) (hcount : r.2.count = list.count)
        (hok : r.1 = memory) (hcapacity : r.2.capacity = if memory then doubleUntil required
          (if list.capacity = 0 then 4 else list.capacity * 2) else list.capacity) :
        Reserved list required memory r := by
      refine ⟨hcount, fun xs => ?_⟩
      rw [Copying.listReserve, if_neg hroom, hcapacity, hok]
      cases memory <;> rfl
    cases ha : list.items with
    | none =>
      rw [arrayAt_none ha]
      refine Triple.fact_pre fun hcount => Triple.of_fact fun hnone => ?_
      obtain ⟨rfl, hcapacity⟩ := hnone
      refine Triple.bind (realloc_triple none none _) fun r => ?_
      cases r with
      | none =>
        refine Triple.ret _ (le_iSup_of_le false ?_)
        rw [fact_of (hreserved false _ rfl rfl rfl), one_mul, arrayAt_none ha, fact_of hcount,
          fact_of ⟨rfl, hcapacity⟩, one_mul]
        rfl
      | some b =>
        refine Triple.ret _ (le_iSup_of_le true ?_)
        rw [fact_of (hreserved true _ rfl rfl rfl), one_mul, arrayAt_some rfl, fact_of hcount,
          one_mul]
    | some a =>
      rw [arrayAt_some ha]
      refine Triple.fact_pre fun hcount => ?_
      refine Triple.bind (realloc_triple (some a) (some (Block.items list.capacity items)) _) fun r => ?_
      cases r with
      | none =>
        refine Triple.ret _ (le_iSup_of_le false ?_)
        rw [fact_of (hreserved false _ rfl rfl rfl), one_mul, arrayAt_some ha, fact_of hcount,
          one_mul]
        rfl
      | some b =>
        refine Triple.ret _ (le_iSup_of_le true ?_)
        rw [fact_of (hreserved true _ rfl rfl rfl), one_mul, arrayAt_some rfl, fact_of hcount,
          one_mul]

end MlinkDevice.Pointers
