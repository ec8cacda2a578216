import Mathlib.Algebra.GroupWithZero.Nat
import MlinkDevice.ItemList

/-!
# The capacity of a list

`list_reserve` doubles a `size_t` and multiplies it by the item size. Either of them may wrap, and
then the loop does not end or the block is smaller than the capacity says.
-/

namespace MlinkDevice

/-- The loop of `list_reserve` ends, and when it returns true the capacity is enough. A block that
it asked for has all the bytes of that capacity, so that no later item is written beyond it. -/
structure ReserveSafe (list : ListT) (required : UInt64) : Prop where
  ends : required ≤ list.capacity ∨
    ∃ rounds v, doubleCapacity required rounds list.startCapacity = some v
  enough : ∀ memory list', listReserve memory list required = some (true, list') →
    required.toNat ≤ list'.capacity.toNat
  bytes : ∀ memory list', listReserve memory list required = some (true, list') →
    list.capacity < required → ∃ block, list'.items = some block ∧
      list'.capacity.toNat * list'.itemSize.toNat ≤ block.length ∧
      ∀ n < list'.capacity, (n * list'.itemSize).toNat + list'.itemSize.toNat ≤ block.length

theorem offset_within {n capacity itemSize : UInt64} {length : ℕ} (hn : n < capacity)
    (hfits : capacity.toNat * itemSize.toNat < 2 ^ 64)
    (hlength : capacity.toNat * itemSize.toNat ≤ length) :
    (n * itemSize).toNat + itemSize.toNat ≤ length := by
  have hnext := Nat.mul_le_mul_right itemSize.toNat (UInt64.lt_iff_toNat_lt.mp hn)
  rw [Nat.succ_mul] at hnext
  rw [UInt64.toNat_mul, Nat.mod_eq_of_lt (by omega)]
  omega

theorem ListT.Doubles.safe {list : ListT} {required : UInt64} {k : ℕ}
    (h : list.Doubles required.toNat k) (hfull : list.capacity.toNat < required.toNat) :
    ReserveSafe list required := by
  have hstart := ListT.firstReach_start.mpr h.first
  refine ⟨.inr ⟨64, UInt64.ofNat (doubled list.startCapacity.toNat k), ?_⟩,
    fun memory list' hreserve => ?_, fun memory list' hreserve _ => ?_⟩
  · refine doubleCapacity_eq_some.mpr ⟨k, hstart.le, hstart, ?_⟩
    exact UInt64.toNat_ofNat_of_lt (Nat.mod_lt _ (by decide))
  · obtain ⟨i, capacity, newItems, hfirst, hcapacity, -, rfl⟩ := listReserve_grown hfull hreserve
    exact hcapacity ▸ hfirst.reaches
  · obtain ⟨i, capacity, newItems, hfirst, hcapacity, hlength, rfl⟩ :=
      listReserve_grown hfull hreserve
    obtain rfl := hfirst.unique h.first
    have hfits : capacity.toNat * list.itemSize.toNat < 2 ^ 64 := hcapacity ▸ h.fits
    rw [UInt64.toNat_mul, Nat.mod_eq_of_lt hfits] at hlength
    exact ⟨newItems, rfl, hlength.ge, fun n hn => offset_within hn hfits hlength.ge⟩

theorem ReserveSafe.doubles {list : ListT} {required : UInt64} (h : ReserveSafe list required)
    (hfull : list.capacity < required) : ∃ k, list.Doubles required.toNat k := by
  have hlt := UInt64.lt_iff_toNat_lt.mp hfull
  obtain ⟨rounds, v, hloop⟩ := h.ends.resolve_left (UInt64.not_le.mpr hfull)
  obtain ⟨k, -, hstart, -⟩ := doubleCapacity_eq_some.mp hloop
  obtain ⟨list', hreserve⟩ :=
    listReserve_ends ⟨true, fun _ => 0⟩ hlt (ListT.firstReach_start.mp hstart)
  obtain ⟨block, hblock, hbytes, -⟩ := h.bytes _ list' hreserve hfull
  obtain ⟨i, capacity, newItems, hfirst, hcapacity, hlength, rfl⟩ := listReserve_grown hlt hreserve
  obtain rfl : newItems = block := Option.some.inj hblock
  refine ⟨i, hfirst, ?_⟩
  rw [← hcapacity]
  calc capacity.toNat * list.itemSize.toNat ≤ newItems.length := hbytes
    _ = (capacity * list.itemSize).toNat := hlength
    _ < 2 ^ 64 := UInt64.toNat_lt _

/-- A reserve is right exactly when the list has room, or some doubling, which may wrap, reaches
what is required and the bytes of the first one that does fit in a `size_t`. -/
theorem reserve_safe_iff (list : ListT) (required : UInt64) :
    ReserveSafe list required ↔
      required ≤ list.capacity ∨ ∃ k, list.Doubles required.toNat k := by
  by_cases hroom : required ≤ list.capacity
  · refine ⟨fun _ => .inl hroom, fun _ => ⟨.inl hroom, fun memory list' h => ?_,
      fun memory list' _ hfull => absurd hroom (UInt64.not_le.mpr hfull)⟩⟩
    rw [listReserve, if_pos hroom] at h
    cases h
    exact UInt64.le_iff_toNat_le.mp hroom
  · have hfull : list.capacity < required := UInt64.not_le.mp hroom
    refine ⟨fun h => .inr (h.doubles hfull), fun h => ?_⟩
    obtain ⟨k, hdoubles⟩ := h.resolve_left hroom
    exact hdoubles.safe (UInt64.lt_iff_toNat_lt.mp hfull)

/-- Items of 8 bytes get a block of 0 bytes for a capacity of 2 to the 61, and for one more than 2
to the 63 the loop goes on for ever. -/
theorem reserve_wraps :
    (¬ ∀ (list : ListT) (required : UInt64), list.count ≤ list.capacity → 1 ≤ list.itemSize →
      ReserveSafe list required) ∧
    ∀ rounds, doubleCapacity (.ofNat (2 ^ 63 + 1)) rounds (listInit 1).startCapacity = none := by
  constructor
  · intro h
    have hsafe := h (listInit 8) (.ofNat (2 ^ 61)) (by decide) (by decide)
    obtain ⟨block, hblock, hbytes, -⟩ := hsafe.bytes ⟨true, fun _ => 0⟩
      { listInit 8 with items := some [], capacity := .ofNat (2 ^ 61) } rfl (by decide)
    obtain rfl := Option.some.inj hblock
    exact absurd hbytes (by decide)
  · intro rounds
    by_contra hends
    obtain ⟨v, hv⟩ := Option.ne_none_iff_exists'.mp hends
    have hnone : doubleCapacity (.ofNat (2 ^ 63 + 1)) 64 (listInit 1).startCapacity = none := by
      decide
    exact Option.some_ne_none v ((ListT.doubleCapacity_start hv).symm.trans hnone)

end MlinkDevice
