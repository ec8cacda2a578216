import Mathlib.Algebra.GroupWithZero.Nat
import Mathlib.Data.Nat.Find
import MlinkDevice.ItemList

/-!
# One list as a sequence

What each function of `list.c` makes of the items in a list whose block is as large as its
capacity says. As long as the new capacity has room in a `size_t`, nothing is lost.
-/

namespace MlinkDevice

/-! ## Lists that are in order -/

/-- The items in the list: its first `count` slots. -/
def ListT.contents (list : ListT) : List (List UInt8) :=
  (List.range list.count.toNat).map (slotOf list.itemSize.toNat (list.items.getD []))

/-- The block is as large as the capacity says, and that is zero or four times a power of two. -/
structure ListT.Valid (list : ListT) : Prop where
  size_pos : 1 ≤ list.itemSize.toNat
  count_le : list.count.toNat ≤ list.capacity.toNat
  fits : list.capacity.toNat * list.itemSize.toNat < 2 ^ 64
  length : (list.items.getD []).length = list.itemSize.toNat * list.capacity.toNat
  power : list.capacity.toNat = 0 ∨ ∃ m, list.capacity.toNat = 4 * 2 ^ m

/-- The list has room, or some doubling of its capacity has, and its bytes are below 2 to the 64. -/
def ListT.Fits (list : ListT) (required : ℕ) : Prop :=
  required ≤ list.capacity.toNat ∨ ∃ k, required ≤ list.firstCapacity * 2 ^ k ∧
    list.firstCapacity * 2 ^ k * list.itemSize.toNat < 2 ^ 64

theorem listInit_valid {itemSize : UInt64} (hsize : 1 ≤ itemSize.toNat) :
    (listInit itemSize).Valid where
  size_pos := hsize
  count_le := Nat.le_refl _
  fits := by simp [listInit]
  length := by simp [listInit]
  power := .inl rfl

theorem length_copied (itemSize : UInt64) (copyFunc : Option CopyFunc) (item : List UInt8) :
    (copied itemSize copyFunc item).length = itemSize.toNat := by
  unfold copied bytesAt
  cases copyFunc <;> simp

variable {list : ListT}

theorem ListT.length_contents (list : ListT) : list.contents.length = list.count.toNat := by
  rw [ListT.contents, List.length_map, List.length_range]

theorem ListT.Valid.offset (h : list.Valid) {i : UInt64} (hi : i.toNat < list.capacity.toNat) :
    (i * list.itemSize).toNat = i.toNat * list.itemSize.toNat := by
  rw [UInt64.toNat_mul, Nat.mod_eq_of_lt]
  exact Nat.lt_of_le_of_lt (Nat.mul_le_mul_right _ hi.le) h.fits

theorem ListT.Valid.itemAt (h : list.Valid) {i : UInt64} (hi : i.toNat < list.count.toNat) :
    list.itemAt (i * list.itemSize).toNat =
      slotOf list.itemSize.toNat (list.items.getD []) i.toNat := by
  rw [h.offset (Nat.lt_of_lt_of_le hi h.count_le)]
  rfl

theorem ListT.Valid.get (h : list.Valid) (index : UInt64) :
    (listGet list index).map list.itemAt = list.contents[index.toNat]? := by
  unfold listGet ListT.contents
  by_cases hend : list.count ≤ index
  · rw [if_pos hend, List.getElem?_eq_none]
    · rfl
    · rw [List.length_map, List.length_range]
      exact UInt64.le_iff_toNat_le.mp hend
  · have hi : index.toNat < list.count.toNat := toNat_lt_of_not_le hend
    rw [if_neg hend, List.getElem?_map, List.getElem?_range hi]
    exact congrArg some (h.itemAt hi)

theorem ListT.Valid.freed (h : list.Valid) (freeFunc : Bool) :
    freedItems freeFunc list = if freeFunc then list.contents else [] := by
  unfold freedItems
  cases freeFunc with
  | false => rfl
  | true =>
    cases hitems : list.items with
    | none =>
      have hlength := h.length
      have hcount := h.count_le
      rw [hitems] at hlength
      have hcapacity : list.capacity.toNat = 0 := by
        rcases Nat.mul_eq_zero.mp hlength.symm with hsize | hcapacity
        · have hpos := h.size_pos
          omega
        · exact hcapacity
      have hzero : list.count.toNat = 0 := by omega
      simp [ListT.contents, hzero]
    | some block =>
      rw [Option.isSome_some, Bool.and_self, if_pos rfl, if_pos rfl]
      refine List.map_congr_left fun i hi => ?_
      have hlt : i < list.count.toNat := List.mem_range.mp hi
      have hi' : (UInt64.ofNat i).toNat = i :=
        UInt64.toNat_ofNat_of_lt (Nat.lt_trans hlt list.count.toNat_lt)
      have hitem := h.itemAt (i := UInt64.ofNat i) (by rw [hi']; exact hlt)
      rw [hi'] at hitem
      exact hitem

theorem ListT.Valid.contents_grow (h : list.Valid) {newItems : List UInt8} (capacity : UInt64)
    (hkeep : ∀ i < (list.items.getD []).length, newItems[i]? = (list.items.getD [])[i]?) :
    ({ list with items := some newItems, capacity } : ListT).contents = list.contents := by
  unfold ListT.contents
  refine List.map_congr_left fun i hi => List.ext_getElem? fun k => ?_
  rw [getElem?_slotOf, getElem?_slotOf]
  by_cases hk : k < list.itemSize.toNat
  · have hslot : i + 1 ≤ list.capacity.toNat :=
      Nat.le_trans (Nat.succ_le_of_lt (List.mem_range.mp hi)) h.count_le
    have hwithin := Nat.mul_le_mul_right list.itemSize.toNat hslot
    rw [Nat.succ_mul, Nat.mul_comm list.capacity.toNat, ← h.length] at hwithin
    rw [if_pos hk, if_pos hk]
    exact hkeep _ (Nat.lt_of_lt_of_le (Nat.add_lt_add_left hk _) hwithin)
  · rw [if_neg hk, if_neg hk]

/-! ## Room -/

theorem firstReach_of_fits {required c size k : ℕ} (hreaches : required ≤ c * 2 ^ k)
    (hfits : c * 2 ^ k * size < 2 ^ 64) (hsize : 1 ≤ size) :
    ∃ j ≤ k, FirstReach required c j ∧ doubled c j = c * 2 ^ j := by
  have hbound : ∀ j ≤ k, c * 2 ^ j < 2 ^ 64 := by
    intro j hj
    calc c * 2 ^ j ≤ c * 2 ^ k := Nat.mul_le_mul_left c (Nat.pow_le_pow_right Nat.two_pos hj)
      _ ≤ c * 2 ^ k * size := Nat.le_mul_of_pos_right _ hsize
      _ < 2 ^ 64 := hfits
  have hex : ∃ j, required ≤ c * 2 ^ j := ⟨k, hreaches⟩
  have hle : Nat.find hex ≤ k := Nat.find_min' hex hreaches
  have hsame := doubled_of_lt (hbound _ hle)
  refine ⟨Nat.find hex, hle, ⟨?_, fun j hj => ?_⟩, hsame⟩
  · rw [hsame]
    exact Nat.find_spec hex
  · rw [doubled_of_lt (hbound j (hj.le.trans hle))]
    exact Nat.lt_of_not_le (Nat.find_min hex hj)

theorem ListT.firstCapacity_of_power {m : ℕ} (hm : list.capacity.toNat = 4 * 2 ^ m) (k : ℕ) :
    list.firstCapacity * 2 ^ k = 4 * 2 ^ (m + 1 + k) := by
  have hpos := Nat.two_pow_pos m
  have hne : list.capacity.toNat ≠ 0 := by omega
  rw [ListT.firstCapacity, if_neg hne, hm, Nat.pow_add, Nat.pow_succ, Nat.mul_assoc 4,
    Nat.mul_assoc 4]

theorem ListT.Valid.firstCapacity (h : list.Valid) (k : ℕ) :
    ∃ m, list.firstCapacity * 2 ^ k = 4 * 2 ^ m := by
  rcases h.power with hzero | ⟨m, hm⟩
  · refine ⟨k, ?_⟩
    rw [ListT.firstCapacity, if_pos hzero]
  · exact ⟨m + 1 + k, ListT.firstCapacity_of_power hm k⟩

theorem ListT.Valid.fits_of_le {src : ListT} (hsrc : src.Valid) (h : list.Valid)
    (hsize : list.itemSize = src.itemSize) {required : ℕ}
    (hle : required ≤ src.capacity.toNat) : list.Fits required := by
  by_cases hroom : required ≤ list.capacity.toNat
  · exact .inl hroom
  · have hlt : list.capacity.toNat < src.capacity.toNat := by omega
    have hgrow : ∃ k, list.firstCapacity * 2 ^ k = src.capacity.toNat := by
      rcases hsrc.power with hnone | ⟨m, hm⟩
      · omega
      · rcases h.power with hzero | ⟨j, hj⟩
        · refine ⟨m, ?_⟩
          rw [ListT.firstCapacity, if_pos hzero, hm]
        · have hjm : j < m := by
            by_contra hge
            have hpow : 2 ^ m ≤ 2 ^ j := Nat.pow_le_pow_right Nat.two_pos (Nat.le_of_not_lt hge)
            omega
          refine ⟨m - (j + 1), ?_⟩
          rw [ListT.firstCapacity_of_power hj, hm]
          congr 2
          omega
    obtain ⟨k, hk⟩ := hgrow
    refine .inr ⟨k, hk ▸ hle, ?_⟩
    rw [hk, hsize]
    exact hsrc.fits

/-! ## Reserving and adding -/

/-- What `list_reserve` makes of a list in order. -/
structure ReserveSpec (list : ListT) (required : ℕ) (ok : Bool) (list' : ListT) : Prop where
  failed : ok = false → list' = list
  valid : list'.Valid
  room : ok = true → required ≤ list'.capacity.toNat
  count : list'.count = list.count
  itemSize : list'.itemSize = list.itemSize
  contents : list'.contents = list.contents

theorem ListT.Valid.grow (h : list.Valid) {memory : Realloc} {required k : ℕ} {capacity : UInt64}
    {newItems : List UInt8} (hfull : list.capacity.toNat < required)
    (hrequired : required ≤ capacity.toNat) (hcapacity : capacity.toNat = list.firstCapacity * 2 ^ k)
    (hfits : capacity.toNat * list.itemSize.toNat < 2 ^ 64)
    (hblock : memory.realloc list.items (capacity * list.itemSize) = some newItems) :
    ReserveSpec list required true { list with items := some newItems, capacity } := by
  have hsize : (capacity * list.itemSize).toNat = capacity.toNat * list.itemSize.toNat := by
    rw [UInt64.toNat_mul, Nat.mod_eq_of_lt hfits]
  obtain ⟨hlength, hbytes⟩ := getElem?_realloc hblock
  have hle : list.capacity.toNat ≤ capacity.toNat := by omega
  have hgrows : (list.items.getD []).length ≤ (capacity * list.itemSize).toNat := by
    rw [h.length, hsize, Nat.mul_comm]
    exact Nat.mul_le_mul_right _ hle
  refine ⟨fun hok => absurd hok (by decide), ⟨h.size_pos, h.count_le.trans hle, hfits, ?_, ?_⟩,
    fun _ => hrequired, rfl, rfl, h.contents_grow capacity fun i hi => ?_⟩
  · exact hlength.trans (hsize.trans (Nat.mul_comm _ _))
  · obtain ⟨m, hm⟩ := h.firstCapacity k
    exact .inr ⟨m, hcapacity.trans hm⟩
  · rw [hbytes i (by omega), List.getElem?_eq_getElem hi]
    rfl

theorem ReserveSpec.free {list' : ListT}
    (h : ReserveSpec list (list.count.toNat + 1) true list') :
    list'.count.toNat < list'.capacity.toNat := by
  rw [h.count]
  exact h.room rfl

theorem ListT.Valid.reserve (h : list.Valid) (memory : Realloc) {required : UInt64}
    (hfits : list.Fits required.toNat) : ∃ ok list',
      listReserve memory list required = some (ok, list') ∧
      ReserveSpec list required.toNat ok list' := by
  by_cases hroom : required ≤ list.capacity
  · refine ⟨true, list, if_pos hroom, ?_⟩
    exact ⟨fun _ => rfl, h, fun _ => UInt64.le_iff_toNat_le.mp hroom, rfl, rfl, rfl⟩
  · have hfull : list.capacity.toNat < required.toNat := toNat_lt_of_not_le hroom
    obtain ⟨k, hreaches, hbytes⟩ := hfits.resolve_left (Nat.not_le.mpr hfull)
    obtain ⟨j, hjk, hfirst, hsame⟩ := firstReach_of_fits hreaches hbytes h.size_pos
    obtain ⟨list', hlist'⟩ := listReserve_ends memory hfull hfirst
    refine ⟨memory.succeeds, list', hlist', ?_⟩
    rcases listReserve_some hlist' with ⟨hle, -⟩ | ⟨-, hfails, rfl⟩ |
      ⟨-, hok, i, capacity, newItems, hfirst', hcapacity, hblock, rfl⟩
    · exact absurd hle (Nat.not_le.mpr hfull)
    · exact ⟨fun _ => rfl, h, fun hok => absurd (hok.symm.trans hfails) (by decide), rfl, rfl, rfl⟩
    · obtain rfl := hfirst'.unique hfirst
      have hreached := hcapacity ▸ hfirst'.reaches
      rw [hsame] at hcapacity
      have hpow : list.firstCapacity * 2 ^ i ≤ list.firstCapacity * 2 ^ k :=
        Nat.mul_le_mul_left _ (Nat.pow_le_pow_right Nat.two_pos hjk)
      rw [hok]
      refine h.grow hfull hreached hcapacity ?_ hblock
      rw [hcapacity]
      exact Nat.lt_of_le_of_lt (Nat.mul_le_mul_right _ hpow) hbytes

theorem ListT.Valid.items_of_capacity (h : list.Valid) (hpos : 0 < list.capacity.toNat) :
    ∃ block, list.items = some block := by
  have hlength := h.length
  cases hitems : list.items with
  | none =>
    rw [hitems] at hlength
    exact absurd hlength (Nat.mul_pos h.size_pos hpos).ne
  | some block => exact ⟨block, rfl⟩

theorem ListT.Valid.toNat_next (h : list.Valid) :
    (list.count + 1).toNat = list.count.toNat + 1 := by
  have hcount := h.count_le
  have hcapacity := list.capacity.toNat_lt
  have hnext : list.count.toNat + 1 < 2 ^ 64 := by
    rcases h.power with hzero | ⟨m, hm⟩
    · omega
    · generalize 2 ^ m = p at hm
      omega
  exact toNat_add_one hnext

theorem ListT.Valid.put (h : list.Valid) {item : List UInt8}
    (hroom : list.count.toNat < list.capacity.toNat) (hitem : item.length = list.itemSize.toNat) :
    let dst := (list.count * list.itemSize).toNat
    let list' : ListT := { list with
      items := list.items.map fun block => memcpy block dst item
      count := list.count + 1 }
    list'.Valid ∧ list'.contents = list.contents ++ [item] := by
  intro dst list'
  obtain ⟨block, hblock⟩ := h.items_of_capacity (Nat.lt_of_le_of_lt (Nat.zero_le _) hroom)
  have hlength : block.length = list.itemSize.toNat * list.capacity.toNat := by
    have hlength := h.length
    rw [hblock] at hlength
    exact hlength
  have hwithin : list.count.toNat * list.itemSize.toNat + item.length ≤ block.length := by
    have hnext := Nat.mul_le_mul_right list.itemSize.toNat hroom
    rw [Nat.succ_mul, Nat.mul_comm list.capacity.toNat, ← hlength] at hnext
    rw [hitem]
    exact hnext
  have hslots := slotOf_memcpy hlength hitem hroom
  have hdst : dst = list.count.toNat * list.itemSize.toNat := h.offset hroom
  have hitems : list'.items = some (memcpy block (list.count.toNat * list.itemSize.toNat) item) := by
    rw [← hdst]
    exact congrArg (Option.map _) hblock
  have hcount := h.toNat_next
  refine ⟨⟨h.size_pos, ?_, h.fits, ?_, h.power⟩, ?_⟩
  · exact hcount.symm ▸ hroom
  · rw [hitems]
    exact (length_memcpy hwithin).trans hlength
  · unfold ListT.contents
    have hcount' : list'.count.toNat = list.count.toNat + 1 := hcount
    have hsize' : list'.itemSize.toNat = list.itemSize.toNat := rfl
    rw [hcount', hsize', hitems, hblock, Option.getD_some, Option.getD_some, hslots,
      List.range_succ, List.map_append, List.map_singleton, Function.update_self]
    congr 1
    refine List.map_congr_left fun i hi => ?_
    rw [Function.update_of_ne (List.mem_range.mp hi).ne]

/-- What `list_add` makes of a list in order. -/
structure AddSpec (list : ListT) (item : List UInt8) (ok : Bool) (list' : ListT) : Prop where
  failed : ok = false → list' = list
  valid : list'.Valid
  itemSize : list'.itemSize = list.itemSize
  added : ok = true → list'.contents = list.contents ++ [item]

theorem ListT.Valid.add (h : list.Valid) (memory : Realloc) (item : List UInt8)
    (copyFunc : Option CopyFunc) (hfits : list.Fits (list.count.toNat + 1)) :
    ∃ ok list', listAdd memory list (some item) copyFunc = some (ok, list') ∧
      AddSpec list (copied list.itemSize copyFunc item) ok list' := by
  have hnext := h.toNat_next
  obtain ⟨ok, reserved, hreserve, hspec⟩ :=
    h.reserve memory (hnext.symm ▸ hfits : list.Fits (list.count + 1).toNat)
  rw [hnext] at hspec
  unfold listAdd
  simp only [hreserve, Option.map_some]
  cases ok with
  | false =>
    obtain rfl := hspec.failed rfl
    exact ⟨false, reserved, rfl, fun _ => rfl, h, rfl, fun hok => absurd hok (by decide)⟩
  | true =>
    obtain ⟨hvalid, hcontents⟩ := hspec.valid.put hspec.free
      (length_copied reserved.itemSize copyFunc item)
    refine ⟨true, _, rfl, fun hok => absurd hok (by decide), hvalid, hspec.itemSize, fun _ => ?_⟩
    rw [hspec.contents, hspec.itemSize] at hcontents
    rw [hspec.itemSize]
    exact hcontents

/-! ## Cloning -/

/-- What `list_clone` makes of some items. -/
def clonedItems (itemSize : UInt64) (copyFunc : Option (ℕ → CopyFunc))
    (items : List (List UInt8)) : List (List UInt8) :=
  items.mapIdx fun i item => copied itemSize (copyFunc.map (· i)) item

/-- What `list_clone` returns for a list in order. A failed clone has freed what it copied. -/
structure CloneSpec (src : ListT) (copyFunc : Option (ℕ → CopyFunc)) (freeFunc : Bool)
    (r : CloneReturn) : Prop where
  valid : r.dst.Valid
  copied : r.copied = (clonedItems src.itemSize copyFunc src.contents).take r.copied.length
  done : r.ok = true →
    r.dst.contents = clonedItems src.itemSize copyFunc src.contents ∧ r.freed = []
  failed : r.ok = false → r.dst = listInit src.itemSize ∧ r.copied.length < src.count.toNat ∧
    r.freed = if freeFunc then r.copied else []

theorem ListT.Valid.clear (h : list.Valid) : ({ list with count := 0 } : ListT).Valid :=
  ⟨h.size_pos, Nat.zero_le _, h.fits, h.length, h.power⟩

theorem listFree_valid (h : list.Valid) (freeFunc : Bool) :
    listFree freeFunc list = (listInit list.itemSize, if freeFunc then list.contents else []) := by
  rw [listFree, h.freed]
  rfl

section Clone

variable {src : ListT} (hsrc : src.Valid) (memory : ℕ → Realloc)
  (copyFunc : Option (ℕ → CopyFunc)) (freeFunc : Bool)
include hsrc

theorem cloneItems_spec (left : ℕ) {i : UInt64} {dst : ListT} (hdst : dst.Valid)
    (hsize : dst.itemSize = src.itemSize) (hleft : i.toNat + left = src.count.toNat)
    (hcount : dst.contents.length = i.toNat)
    (hcopied : dst.contents = (clonedItems src.itemSize copyFunc src.contents).take i.toNat) :
    ∃ r, cloneItems memory copyFunc freeFunc src left i dst dst.contents = some r ∧
      CloneSpec src copyFunc freeFunc r := by
  have hlength : (clonedItems src.itemSize copyFunc src.contents).length = src.count.toNat := by
    rw [clonedItems, List.length_mapIdx, src.length_contents]
  induction left generalizing i dst with
  | zero =>
    refine ⟨_, rfl, hdst, ?_, fun _ => ⟨?_, rfl⟩, fun hok => Bool.noConfusion hok⟩
    · rw [hcount]
      exact hcopied
    · rw [hcopied, List.take_of_length_le (by omega)]
  | succ left ih =>
    have hi : i.toNat < src.count.toNat := by omega
    have hnext : (i + 1).toNat = i.toNat + 1 := by
      have hlt := src.count.toNat_lt
      exact toNat_add_one (by omega)
    obtain ⟨item, hitem⟩ : ∃ item, src.contents[i.toNat]? = some item :=
      ⟨_, List.getElem?_eq_getElem (by rw [src.length_contents]; exact hi)⟩
    have hget : (listGetConst src i).map src.itemAt = some item := (hsrc.get i).trans hitem
    have hroom : dst.Fits (dst.count.toNat + 1) := by
      refine hsrc.fits_of_le hdst hsize ?_
      have hcapacity := hsrc.count_le
      have hdstcount := dst.length_contents
      omega
    obtain ⟨ok, dst', hadd, hspec⟩ :=
      hdst.add (memory i.toNat) item (copyFunc.map (· i.toNat)) hroom
    unfold cloneItems
    simp only [hget, hadd]
    cases ok with
    | false =>
      obtain rfl := hspec.failed rfl
      simp only [listFree_valid hdst]
      refine ⟨_, rfl, listInit_valid hdst.size_pos, ?_, fun hok => Bool.noConfusion hok,
        fun _ => ⟨?_, ?_, rfl⟩⟩
      · rw [hcount]
        exact hcopied
      · rw [hsize]
      · rw [hcount]
        exact hi
    | true =>
      have hadded := hspec.added rfl
      rw [hsize] at hadded
      have hsize' := hspec.itemSize.trans hsize
      simp only [hsize', Option.map_some, Option.toList_some, ← hadded]
      refine ih hspec.valid hsize' (by omega) ?_ ?_
      · rw [hadded, List.length_append, hcount, hnext]
        rfl
      · rw [hadded, hcopied, hnext, List.take_add_one]
        congr 1
        rw [clonedItems, List.getElem?_mapIdx, hitem]
        rfl

theorem ListT.Valid.clone : ∃ r, listClone memory copyFunc freeFunc src = some r ∧
    CloneSpec src copyFunc freeFunc r :=
  cloneItems_spec hsrc memory copyFunc freeFunc src.count.toNat (listInit_valid hsrc.size_pos) rfl
    (Nat.zero_add _) rfl rfl

end Clone

end MlinkDevice
