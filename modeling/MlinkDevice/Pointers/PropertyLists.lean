import MlinkDevice.Pointers.Owned

/-!
# What the functions on property lists do

Each computes the list of the functions on values, for some outcome of its allocations, and
owns or frees every block on the way, also where it gives up.
-/

open MlinkDevice.Sep MlinkDevice.Sep.Assertion

namespace MlinkDevice.Pointers

variable {α : Type}

/-! ## Items -/

theorem itemsAt_of_ne {items : List Property} {ps : List McpProperty}
    (h : items.length ≠ ps.length) : itemsAt items ps = ⊥ := by
  induction items generalizing ps with
  | nil =>
    cases ps with
    | nil => exact absurd rfl h
    | cons p ps => rfl
  | cons item items ih =>
    cases ps with
    | nil => rfl
    | cons p ps =>
      rw [itemsAt, ih fun hlength => h (congrArg Nat.succ hlength), Quantale.mul_bot]

theorem itemsAt_append {items more : List Property} {ps qs : List McpProperty}
    (h : items.length = ps.length) :
    itemsAt (items ++ more) (ps ++ qs) = itemsAt items ps * itemsAt more qs := by
  induction items generalizing ps with
  | nil =>
    obtain rfl : ps = [] := List.length_eq_zero_iff.mp h.symm
    simp [itemsAt]
  | cons item items ih =>
    cases ps with
    | nil => simp at h
    | cons p ps =>
      simp only [List.cons_append, itemsAt, ih (Nat.succ.inj h), mul_assoc]

theorem exists_items {items : List Property} {ps : List McpProperty} {P : Assertion Block}
    {c : Prog Block α} {Q : α → Assertion Block}
    (h : items.length = ps.length → Triple (P * itemsAt items ps) c Q) :
    Triple (P * itemsAt items ps) c Q := by
  by_cases hlength : items.length = ps.length
  · exact h hlength
  · rw [itemsAt_of_ne hlength, Quantale.mul_bot]
    exact triple_bot

/-! ## Adding -/

theorem arrayAt_count (list : PropertyList) (items : List Property) :
    arrayAt list items = fact (items.length = list.count) * arrayAt list items := by
  rw [arrayAt, ← mul_assoc, fact_mul_self]

theorem exists_list {list : PropertyList} {l : Copying.PropertyList} {c : Prog Block α}
    {P : Assertion Block} {Q : α → Assertion Block}
    (h : ∀ items, list.capacity = l.capacity → items.length = list.count →
      items.length = l.items.length →
        Triple (P * (arrayAt list items * itemsAt items l.items)) c Q) :
    Triple (P * listAt list l) c Q := by
  rw [listAt, mul_left_comm]
  refine Triple.fact_pre fun hcapacity => ?_
  rw [Quantale.mul_iSup_distrib]
  refine Triple.exists_pre fun items => ?_
  rw [← mul_assoc]
  refine exists_items fun hlength => ?_
  rw [arrayAt_count, mul_left_comm, mul_assoc]
  refine Triple.fact_pre fun hcount => ?_
  rw [mul_assoc]
  exact h items hcapacity hcount hlength

theorem listAt_of {list : PropertyList} {l : Copying.PropertyList}
    (hcapacity : list.capacity = l.capacity) (items : List Property) :
    arrayAt list items * itemsAt items l.items ≤ listAt list l := by
  rw [listAt, fact_of hcapacity, one_mul]
  exact le_iSup (fun items => arrayAt list items * itemsAt items l.items) items

theorem add_of_reserved {list : PropertyList} {l : Copying.PropertyList} {growth : Bool}
    {r : Bool × PropertyList} (hreserved : Reserved list (list.count + 1) growth r)
    (hcapacity : list.capacity = l.capacity) (hcount : l.items.length = list.count)
    (memory : Copying.CopyMemory) (hmemory : memory.items = growth) (p : McpProperty) :
    Copying.mcpPropertyListAdd memory l p =
      if r.1 then (true, ⟨l.items ++ [Copying.propertyCopyFunc memory p], r.2.capacity⟩)
      else (false, ⟨l.items, r.2.capacity⟩) := by
  have hreserve := hreserved.2 l.items
  rw [Copying.mcpPropertyListAdd, hmemory, hcount,
    show l = ⟨l.items, list.capacity⟩ from by rw [hcapacity], hreserve]
  cases r.1 <;> rfl

theorem Reserved.room {list : PropertyList} {growth : Bool} {r : Bool × PropertyList}
    (h : Reserved list (list.count + 1) growth r) (hok : r.1 = true) :
    r.2.count < r.2.capacity := by
  have hreserve := h.2 []
  rw [h.1]
  unfold Copying.listReserve at hreserve
  split at hreserve
  · next hroom =>
    have hsame := congrArg (fun x => x.2.capacity) hreserve
    dsimp only at hsame hroom
    omega
  · next hroom =>
    rw [hok] at hreserve
    cases growth with
    | false => simp at hreserve
    | true =>
      simp only [if_true, Prod.mk.injEq, Copying.PropertyList.mk.injEq, true_and] at hreserve
      have hle := le_doubleUntil (list.count + 1)
        (if list.capacity = 0 then 4 else list.capacity * 2) (by split <;> omega)
      omega

theorem mcpPropertyListAdd_triple (list : PropertyList) (l : Copying.PropertyList)
    (item : Property) (p : McpProperty) :
    Triple (propertyAt item p * listAt list l) (mcpPropertyListAdd list item) fun r =>
      ⨆ memory, propertyAt item p * (fact (r.1 = (Copying.mcpPropertyListAdd memory l p).1) *
        listAt r.2 (Copying.mcpPropertyListAdd memory l p).2) := by
  refine exists_list fun items hcapacity hcount hlength => ?_
  unfold mcpPropertyListAdd
  refine Triple.call (listReserve_triple list items (list.count + 1))
    (propertyAt item p * itemsAt items l.items) (by ac_rfl) fun r => ?_
  rw [Quantale.iSup_mul_distrib]
  refine Triple.exists_pre fun growth => ?_
  rw [mul_assoc]
  refine Triple.fact_pre fun hreserved => ?_
  have hadd := add_of_reserved hreserved hcapacity (hlength.symm.trans hcount)
  have hroom := hreserved.room
  obtain ⟨ok, reserved⟩ := r
  cases ok with
  | false =>
    refine Triple.ret _ (le_iSup_of_le ⟨growth, true, true⟩ ?_)
    rw [hadd _ rfl]
    simp only [Bool.false_eq_true, if_false]
    rw [fact_true, one_mul, mul_left_comm]
    exact mul_le_mul_right (listAt_of (l := ⟨l.items, reserved.capacity⟩) rfl items) _
  | true =>
    refine Triple.call (propertyCopyFunc_triple item p)
      (arrayAt reserved items * itemsAt items l.items) (by ac_rfl) fun copy => ?_
    rw [Quantale.iSup_mul_distrib]
    refine Triple.exists_pre fun copying => ?_
    refine Triple.call (setItem_next_triple (hroom rfl) copy)
      (propertyAt item p * (itemsAt items l.items *
        propertyAt copy (Copying.propertyCopyFunc copying p))) (by ac_rfl) fun _ => ?_
    refine Triple.ret _ (le_iSup_of_le ⟨growth, copying.name, copying.value⟩ ?_)
    rw [hadd _ rfl]
    simp only [if_true]
    rw [fact_true, one_mul, mul_left_comm]
    refine mul_le_mul_right ((le_of_eq ?_).trans (listAt_of (l := ⟨_, _⟩) rfl (items ++ [copy]))) _
    rw [itemsAt_append hlength, itemsAt, itemsAt, mul_one]
    rfl

/-! ## Freeing -/

/-- **Run.** From the item `i` on, whatever the items still own is freed. -/
theorem freeItems_triple (list : PropertyList) (items rest : List Property) (ps : List McpProperty)
    (i : ℕ) (hrest : items.drop i = rest) :
    Triple (arrayAt list items * itemsAt rest ps) (freeItems list i rest.length) fun _ =>
      ⨆ items, arrayAt list items := by
  induction rest generalizing i items ps with
  | nil =>
    cases ps with
    | nil => exact Triple.ret () (le_iSup_of_le items (by rw [itemsAt, mul_one]))
    | cons p ps => exact triple_bot.pre (by rw [itemsAt_of_ne (by simp), Quantale.mul_bot])
  | cons item rest ih =>
    cases ps with
    | nil => exact triple_bot.pre (by rw [itemsAt_of_ne (by simp), Quantale.mul_bot])
    | cons p ps =>
      have hitem : items[i]? = some item := by
        rw [← List.head?_drop, hrest]
        rfl
      have hnext : (items.set i {}).drop (i + 1) = rest := by
        rw [List.drop_set_of_lt (Nat.lt_succ_self i), ← List.tail_drop, hrest]
        rfl
      refine Triple.call (getItem_triple hitem) _ rfl fun got => ?_
      rw [mul_assoc]
      refine Triple.fact_pre fun hgot => ?_
      subst hgot
      refine Triple.call (propertyFreeFunc_triple got p) (arrayAt list items * itemsAt rest ps)
        (by rw [itemsAt]; ac_rfl) fun freed => ?_
      refine Triple.fact_pre fun hfreed => ?_
      subst hfreed
      refine Triple.call (setItem_triple (List.getElem?_eq_some_iff.mp hitem).1 {}) _ rfl fun _ => ?_
      exact ih (items.set i {}) ps (i + 1) hnext

theorem mcpPropertyListFree_triple (list : PropertyList) (l : Copying.PropertyList) :
    Triple (listAt list l) (mcpPropertyListFree list) fun r => fact (r = {}) := by
  rw [← one_mul (listAt list l)]
  refine exists_list fun items hcapacity hcount hlength => ?_
  rw [one_mul]
  unfold mcpPropertyListFree
  cases ha : list.items with
  | none =>
    rw [arrayAt_none ha, mul_assoc]
    refine Triple.fact_pre fun _ => Triple.fact_pre fun hnone => ?_
    obtain ⟨rfl, -⟩ := hnone
    obtain hl : l.items = [] := List.length_eq_zero_iff.mp hlength.symm
    exact Triple.ret _ (by rw [hl, itemsAt, fact_of rfl])
  | some a =>
    have hloop := freeItems_triple list items items l.items 0 rfl
    rw [hcount] at hloop
    refine Triple.bind hloop fun _ => Triple.exists_pre fun items => ?_
    rw [arrayAt_some ha]
    refine Triple.fact_pre fun _ => ?_
    refine Triple.bind (free_triple a _) fun _ => ?_
    exact Triple.ret _ (by rw [fact_of rfl])

/-! ## Cloning -/

theorem listAt_empty : listAt {} {} = 1 := by
  rw [listAt, fact_of rfl, one_mul]
  apply le_antisymm
  · refine iSup_le fun items => ?_
    rw [arrayAt_none rfl]
    cases items with
    | nil => exact (mul_le_mul_left (mul_le_mul' (fact_le _) (fact_le _)) _).trans (by simp [itemsAt])
    | cons item items => simp [itemsAt]
  · refine le_iSup_of_le [] ?_
    rw [arrayAt_none rfl, fact_of (by rfl), fact_of (by exact ⟨rfl, rfl⟩)]
    simp [itemsAt]

theorem cloneLoop_congr {memory memory' : ℕ → Copying.CopyMemory} {ps : List McpProperty}
    {clone : Copying.PropertyList} (h : ∀ i, clone.items.length ≤ i → memory i = memory' i) :
    Copying.cloneLoop memory clone ps = Copying.cloneLoop memory' clone ps := by
  induction ps generalizing clone with
  | nil => rfl
  | cons p ps ih =>
    rw [Copying.cloneLoop, Copying.cloneLoop, h _ le_rfl]
    rcases Copying.listAdd_cases (memory' clone.items.length) clone p with hadd | ⟨capacity, hadd⟩
    · rw [hadd]
    · rw [hadd]
      exact ih fun i hi => h i (by simp at hi; omega)

/-- **Run.** From the item `i` of the source on, the clone is that of the loop on values. -/
theorem cloneItems_triple (source : PropertyList) (items rest : List Property)
    (ps : List McpProperty) (i : ℕ) (hrest : items.drop i = rest) (clone : PropertyList)
    (l : Copying.PropertyList) :
    Triple (arrayAt source items * itemsAt rest ps * listAt clone l)
      (cloneItems source clone i rest.length) fun r =>
        ⨆ memory, arrayAt source items * itemsAt rest ps *
          listAt r (Copying.cloneLoop memory l ps) := by
  induction rest generalizing i ps clone l with
  | nil =>
    cases ps with
    | nil => exact Triple.ret clone (le_iSup_of_le (fun _ => .plenty) le_rfl)
    | cons p ps => exact triple_bot.pre (by simp [itemsAt])
  | cons item rest ih =>
    cases ps with
    | nil => exact triple_bot.pre (by simp [itemsAt])
    | cons p ps =>
      have hitem : items[i]? = some item := by
        rw [← List.head?_drop, hrest]
        rfl
      have hnext : items.drop (i + 1) = rest := by
        rw [← List.tail_drop, hrest]
        rfl
      refine Triple.call (getItem_triple hitem) (itemsAt (item :: rest) (p :: ps) * listAt clone l)
        (mul_assoc ..) fun got => ?_
      rw [mul_assoc]
      refine Triple.fact_pre fun hgot => ?_
      subst hgot
      refine Triple.call (mcpPropertyListAdd_triple clone l got p)
        (arrayAt source items * itemsAt rest ps) (by rw [itemsAt]; ac_rfl) fun added => ?_
      rw [Quantale.iSup_mul_distrib]
      refine Triple.exists_pre fun copying => ?_
      rw [mul_assoc, mul_left_comm, mul_assoc]
      refine Triple.fact_pre fun hok => ?_
      obtain ⟨ok, copied⟩ := added
      have hloop (memory : ℕ → Copying.CopyMemory) (hfirst : memory l.items.length = copying) :
          Copying.cloneLoop memory l (p :: ps) =
            if ok then Copying.cloneLoop memory (Copying.mcpPropertyListAdd copying l p).2 ps
            else {} := by
        obtain rfl : ok = _ := hok
        rw [Copying.cloneLoop, hfirst]
        rcases Copying.listAdd_cases copying l p with hadd | ⟨capacity, hadd⟩ <;> rw [hadd] <;> rfl
      cases ok with
      | false =>
        refine Triple.last (mcpPropertyListFree_triple copied _)
          (propertyAt got p * (arrayAt source items * itemsAt rest ps)) (by ac_rfl) fun r => ?_
        refine le_iSup_of_le (fun _ => copying) ?_
        rw [hloop _ rfl, itemsAt]
        by_cases hr : r = {}
        · rw [hr, fact_of rfl, one_mul, if_neg Bool.false_ne_true, listAt_empty, mul_one]
          exact le_of_eq (by ac_rfl)
        · rw [fact_of_not hr, Quantale.bot_mul]
          exact bot_le
      | true =>
        have hlength : (Copying.mcpPropertyListAdd copying l p).2.items.length =
            l.items.length + 1 := by
          rcases Copying.listAdd_cases copying l p with hadd | ⟨capacity, hadd⟩
          · rw [hadd] at hok
            exact Bool.noConfusion hok
          · rw [hadd]
            simp
        refine Triple.last (ih ps (i + 1) hnext copied _) (propertyAt got p) (by ac_rfl) fun r => ?_
        rw [Quantale.iSup_mul_distrib]
        refine iSup_le fun memory => ?_
        refine le_iSup_of_le (Function.update memory l.items.length copying) ?_
        have hlater : Copying.cloneLoop (Function.update memory l.items.length copying)
            (Copying.mcpPropertyListAdd copying l p).2 ps =
              Copying.cloneLoop memory (Copying.mcpPropertyListAdd copying l p).2 ps := by
          refine cloneLoop_congr fun j hj => ?_
          rw [hlength] at hj
          exact Function.update_of_ne (by omega) ..
        rw [hloop _ (Function.update_self ..), if_pos rfl, hlater, itemsAt]
        exact le_of_eq (by ac_rfl)

theorem mcpPropertyListClone_triple (source : PropertyList) (l : Copying.PropertyList) :
    Triple (listAt source l) (mcpPropertyListClone source) fun r =>
      ⨆ memory, listAt source l * listAt r (Copying.cloneLoop memory {} l.items) := by
  rw [← one_mul (listAt source l)]
  refine exists_list fun items hcapacity hcount hlength => ?_
  have hloop := cloneItems_triple source items items l.items 0 rfl {} {}
  rw [hcount, listAt_empty, mul_one] at hloop
  rw [one_mul]
  refine Triple.post hloop fun r => iSup_mono fun memory => mul_le_mul_left ?_ _
  rw [one_mul]
  exact listAt_of hcapacity items

/-! ## The adders -/

theorem addAndFree_triple (list : PropertyList) (l : Copying.PropertyList) (item : Property)
    (p : McpProperty) :
    Triple (propertyAt item p * listAt list l) (addAndFree list item) fun r =>
      ⨆ memory, fact (r.1 = (Copying.mcpPropertyListAdd memory l p).1) *
        listAt r.2 (Copying.mcpPropertyListAdd memory l p).2 := by
  refine Triple.bind (mcpPropertyListAdd_triple list l item p) fun added => ?_
  refine Triple.exists_pre fun memory => ?_
  refine Triple.call (propertyFreeFunc_triple item p) _ rfl fun freed => ?_
  refine Triple.fact_pre fun _ => ?_
  exact Triple.ret added (le_iSup_of_le memory le_rfl)

theorem strdup_triple {s : CStr} {R : Assertion Block} {f : Option Addr → Prog Block α}
    {Q : α → Assertion Block} (hnone : Triple R (f none) Q)
    (hsome : ∀ a, Triple (pointsTo a (.string s) * R) (f (some a)) Q) :
    Triple R (utilsStrdup (some s) >>= f) Q := by
  refine Triple.call (utilsStrdup_triple (some s)) R (one_mul R).symm fun r => ?_
  rw [Quantale.iSup_mul_distrib]
  refine Triple.exists_pre fun memory => ?_
  cases memory with
  | false =>
    cases r with
    | none => rwa [show stringAt none (Copying.utilsStrdup false (some s)) = 1 from rfl, one_mul]
    | some a => exact triple_bot.pre (le_of_eq (Quantale.bot_mul ..))
  | true =>
    cases r with
    | none => exact triple_bot.pre (le_of_eq (Quantale.bot_mul ..))
    | some a => exact hsome a

/-- What a call of an adder may make of the list. -/
def addedAt (l : Copying.PropertyList) (call : AddCall) (r : Bool × PropertyList) :
    Assertion Block :=
  ⨆ memory, fact (r.1 = (Copying.ListCall.apply ⟨true, memory, call⟩ l).1) *
    listAt r.2 (Copying.ListCall.apply ⟨true, memory, call⟩ l).2

theorem addedAt_of {list : PropertyList} {l : Copying.PropertyList} {call : AddCall}
    (memory : Copying.AddMemory) {ok : Bool} {l' : Copying.PropertyList}
    (h : Copying.ListCall.apply ⟨true, memory, call⟩ l = (ok, l')) :
    listAt list l' ≤ addedAt l call (ok, list) := by
  refine le_iSup_of_le memory ?_
  rw [h, fact_of rfl, one_mul]

theorem addAndFree_added {list : PropertyList} {l : Copying.PropertyList} {call : AddCall}
    {R : Assertion Block} (item : Property) (p : McpProperty) (howns : R = propertyAt item p)
    (h : ∀ memory : Copying.CopyMemory,
      Copying.ListCall.apply ⟨true, ⟨true, true, memory⟩, call⟩ l =
        Copying.mcpPropertyListAdd memory l p) :
    Triple (R * listAt list l) (addAndFree list item) (addedAt l call) := by
  rw [howns]
  refine (addAndFree_triple list l item p).post fun r => iSup_le fun memory => ?_
  refine le_iSup_of_le ⟨true, true, memory⟩ ?_
  rw [h]

theorem addCall_triple (list : PropertyList) (l : Copying.PropertyList) (call : AddCall) :
    Triple (listAt list l) (addCall list call) (addedAt l call) := by
  have hrefused {call : AddCall} (memory : Copying.AddMemory)
      (h : Copying.ListCall.apply ⟨true, memory, call⟩ l = (false, l)) :
      Triple (listAt list l) (pure (false, list)) (addedAt l call) :=
    Triple.ret (false, list) (addedAt_of memory h)
  cases call with
  | bool name hasDefault defaultValue =>
    cases name with
    | none => exact hrefused ⟨true, true, .plenty⟩ rfl
    | some name =>
      refine strdup_triple (hrefused ⟨false, true, .plenty⟩ rfl) fun a => ?_
      refine addAndFree_added _ { name := some name, value := .boolean defaultValue, hasDefault }
        ?_ fun _ => rfl
      rw [propertyAt_eq rfl]
      simp [valueAt]
  | int name hasDefault defaultValue hasMin minValue hasMax maxValue =>
    cases name with
    | none => exact hrefused ⟨true, true, .plenty⟩ rfl
    | some name =>
      refine strdup_triple (hrefused ⟨false, true, .plenty⟩ rfl) fun a => ?_
      refine addAndFree_added _
        { name := some name, value := .integer defaultValue, hasDefault, hasMin, hasMax, minValue,
          maxValue } ?_ fun _ => rfl
      rw [propertyAt_eq rfl]
      simp [valueAt]
  | string name defaultValue =>
    cases name with
    | none => exact hrefused ⟨true, true, .plenty⟩ rfl
    | some name =>
      refine strdup_triple (hrefused ⟨false, true, .plenty⟩ rfl) fun a => ?_
      cases defaultValue with
      | none =>
        refine addAndFree_added _ { name := some name, value := .string none, hasDefault := false }
          ?_ fun _ => rfl
        rw [propertyAt_eq rfl]
        simp [valueAt, fact_of]
      | some value =>
        refine strdup_triple ?_ fun b => ?_
        · -- The name is freed again when there is no memory for the default.
          have hfree := propertyFreeFunc_triple
            { name := some a, value := .string none, hasDefault := true }
            { name := some name, value := .string none, hasDefault := true }
          rw [propertyAt_eq rfl] at hfree
          refine Triple.call hfree (listAt list l) (by simp [valueAt]) fun _ => ?_
          refine Triple.fact_pre fun _ => ?_
          exact hrefused ⟨true, false, .plenty⟩ rfl
        · rw [mul_left_comm, ← mul_assoc]
          refine addAndFree_added _
            { name := some name, value := .string (some value), hasDefault := true } ?_ fun _ => rfl
          rw [propertyAt_eq rfl]
          simp [valueAt]

end MlinkDevice.Pointers
