import MlinkDevice.Copying
import MlinkDevice.ItemSequence
import MlinkDevice.Runs

/-!
# Property lists are generic lists

A property list as `mcp_property.c` sees it, and the list of `list.c` that it is kept in. An add
to one is an add to the other, with the same result and the same capacity.
-/

namespace MlinkDevice.Copying

/-- The generic list holds the properties, as bytes that `encode` gives them. -/
structure Represents (encode : McpProperty → List UInt8) (properties : PropertyList)
    (list : ListT) : Prop where
  valid : list.Valid
  capacity : properties.capacity = list.capacity.toNat
  contents : list.contents = properties.items.map encode

theorem init_represents (encode : McpProperty → List UInt8) {itemSize : UInt64}
    (hsize : 1 ≤ itemSize.toNat) : Represents encode {} (listInit itemSize) where
  valid := listInit_valid hsize
  capacity := rfl
  contents := rfl

/-! ## Capacities -/

theorem doubleUntil_eq {required c k : ℕ} (hc : 0 < c) (hreaches : required ≤ c * 2 ^ k)
    (hbelow : ∀ j < k, c * 2 ^ j < required) : doubleUntil required c = c * 2 ^ k := by
  induction k generalizing c with
  | zero =>
    have hle : ¬ (0 < c ∧ c < required) := by omega
    rw [doubleUntil, if_neg hle, Nat.pow_zero, Nat.mul_one]
  | succ k ih =>
    have hlt := hbelow 0 (Nat.succ_pos k)
    rw [Nat.pow_zero, Nat.mul_one] at hlt
    have hpow (j : ℕ) : c * 2 * 2 ^ j = c * 2 ^ (j + 1) := by
      rw [Nat.mul_assoc, Nat.mul_comm 2, ← Nat.pow_succ]
    rw [doubleUntil, if_pos ⟨hc, hlt⟩, ih (by omega), hpow]
    · rw [hpow]
      exact hreaches
    · intro j hj
      rw [hpow]
      exact hbelow (j + 1) (Nat.succ_lt_succ hj)

theorem firstReach_doubleUntil {required c size k : ℕ} (hc : 0 < c)
    (hreaches : required ≤ c * 2 ^ k) (hfits : c * 2 ^ k * size < 2 ^ 64) (hsize : 1 ≤ size) :
    ∃ j, FirstReach required c j ∧ doubled c j = doubleUntil required c := by
  obtain ⟨j, -, hfirst, hsame⟩ := firstReach_of_fits hreaches hfits hsize
  refine ⟨j, hfirst, ?_⟩
  have hbelow : ∀ i < j, c * 2 ^ i < required := by
    intro i hi
    have hle : c * 2 ^ i ≤ c * 2 ^ j :=
      Nat.mul_le_mul_left c (Nat.pow_le_pow_right Nat.two_pos hi.le)
    have hlt : doubled c j < 2 ^ 64 := Nat.mod_lt _ (by decide)
    have hsmall : c * 2 ^ i < 2 ^ 64 := Nat.lt_of_le_of_lt hle (hsame ▸ hlt)
    rw [← doubled_of_lt hsmall]
    exact hfirst.below i hi
  rw [hsame, doubleUntil_eq hc (hsame ▸ hfirst.reaches) hbelow]

/-! ## Calls -/

section Calls

variable {encode : McpProperty → List UInt8} {properties : PropertyList} {list : ListT}

theorem Represents.reserve (h : Represents encode properties list) (memory : Realloc)
    {required : UInt64} (hfits : list.Fits required.toNat) : ∃ ok list',
      MlinkDevice.listReserve memory list required = some (ok, list') ∧
      listReserve memory.succeeds properties required.toNat =
        (ok, { properties with capacity := list'.capacity.toNat }) ∧
      ReserveSpec list required.toNat ok list' := by
  obtain ⟨ok, list', hreserve, hspec⟩ := h.valid.reserve memory hfits
  refine ⟨ok, list', hreserve, ?_, hspec⟩
  unfold listReserve
  rw [h.capacity]
  by_cases hroom : required.toNat ≤ list.capacity.toNat
  · rcases listReserve_some hreserve with ⟨-, rfl, rfl⟩ | ⟨hfull, -⟩ | ⟨hfull, -⟩
    · rw [if_pos hroom, ← h.capacity]
    · exact absurd hroom (Nat.not_le.mpr hfull)
    · exact absurd hroom (Nat.not_le.mpr hfull)
  · obtain ⟨k, hreaches, hbytes⟩ := hfits.resolve_left hroom
    obtain ⟨j, hfirst, hdoubles⟩ := firstReach_doubleUntil list.firstCapacity_pos hreaches
      hbytes h.valid.size_pos
    obtain ⟨list'', hends⟩ := listReserve_ends memory (Nat.lt_of_not_le hroom) hfirst
    obtain ⟨rfl, rfl⟩ := Prod.mk.inj (Option.some.inj (hends.symm.trans hreserve))
    rw [if_neg hroom]
    cases hmemory : memory.succeeds with
    | false =>
      rw [hspec.failed hmemory, ← h.capacity]
      rfl
    | true =>
      rw [hmemory] at hreserve
      obtain ⟨i, capacity, newItems, hfirst', hcapacity, -, rfl⟩ :=
        listReserve_grown (Nat.lt_of_not_le hroom) hreserve
      obtain rfl := hfirst'.unique hfirst
      rw [hcapacity, hdoubles]
      rfl

/-- **Step.** An add to the properties is an add to the list, when the copy function copies what
the properties are encoded as. -/
theorem Represents.add (h : Represents encode properties list) (memory : Realloc)
    {copyMemory : CopyMemory} (hmemory : copyMemory.items = memory.succeeds)
    {property : McpProperty} {copyFunc : CopyFunc}
    (hcopy : copied list.itemSize copyFunc (encode property) =
      encode (propertyCopyFunc copyMemory property))
    (hfits : list.Fits (list.count.toNat + 1)) : ∃ list',
      listAdd memory list (some (encode property)) copyFunc =
        some ((mcpPropertyListAdd copyMemory properties property).1, list') ∧
      Represents encode (mcpPropertyListAdd copyMemory properties property).2 list' := by
  have hnext := h.valid.toNat_next
  have hlength : properties.items.length = list.count.toNat := by
    rw [← list.length_contents, h.contents, List.length_map]
  obtain ⟨ok, reserved, hreserve, hproperties, hspec⟩ :=
    h.reserve memory (hnext.symm ▸ hfits : list.Fits (list.count + 1).toNat)
  rw [hnext] at hproperties hspec
  rw [← hlength, ← hmemory] at hproperties
  unfold listAdd mcpPropertyListAdd
  simp only [hreserve, hproperties, Option.map_some]
  cases ok with
  | false =>
    obtain rfl := hspec.failed rfl
    exact ⟨reserved, rfl, h.valid, rfl, h.contents⟩
  | true =>
    obtain ⟨hvalid, hcontents⟩ := hspec.valid.put hspec.free
      (length_copied reserved.itemSize copyFunc (encode property))
    refine ⟨_, rfl, hvalid, rfl, ?_⟩
    rw [hspec.contents, hspec.itemSize, hcopy, h.contents] at hcontents
    rw [hspec.itemSize, hcopy, List.map_append, List.map_singleton]
    exact hcontents

end Calls

/-! ## Any number of adds -/

/-- One `mcp_property_list_add`: the property, what its allocations make of it, and the bytes that
the copy function writes. -/
structure PropertyAdd where
  property : McpProperty
  memory : Realloc
  copyMemory : CopyMemory
  copyFunc : CopyFunc

/-- An add to both lists, unless the generic one does not return. -/
def addStep (encode : McpProperty → List UInt8) (s : PropertyList × ListT) (add : PropertyAdd) :
    Option (PropertyList × ListT) :=
  (listAdd add.memory s.2 (some (encode add.property)) add.copyFunc).map fun r =>
    ((mcpPropertyListAdd add.copyMemory s.1 add.property).2, r.2)

/-- The two see the same allocation, the copy function copies properties, and the capacity that is
needed has room in a `size_t`. -/
structure PropertyAdd.Agrees (encode : McpProperty → List UInt8) (s : PropertyList × ListT)
    (add : PropertyAdd) : Prop where
  memory : add.copyMemory.items = add.memory.succeeds
  copy : copied s.2.itemSize add.copyFunc (encode add.property) =
    encode (propertyCopyFunc add.copyMemory add.property)
  fits : s.2.Fits (s.2.count.toNat + 1)

/-- **Run.** After any adds the generic list holds the properties. -/
theorem adds_represent (encode : McpProperty → List UInt8) {itemSize : UInt64}
    (hsize : 1 ≤ itemSize.toNat) (adds : List PropertyAdd)
    (hadds : Runs.Along (addStep encode) (PropertyAdd.Agrees encode) ({}, listInit itemSize) adds) :
    ∃ t, Runs.run (addStep encode) ({}, listInit itemSize) adds = some t ∧
      Represents encode t.1 t.2 := by
  refine Runs.run_progress (fun s => Represents encode s.1 s.2) (fun s add h hagrees => ?_)
    (init_represents encode hsize) hadds
  obtain ⟨list', hadd, hnext⟩ := h.add add.memory hagrees.memory hagrees.copy hagrees.fits
  exact ⟨_, congrArg (Option.map _) hadd, hnext⟩

end MlinkDevice.Copying
