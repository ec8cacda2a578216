import Mathlib.Algebra.GroupWithZero.Nat
import MlinkDevice.Queue

/-!
# The generic list

`list.c`: items of a fixed size in a block that grows by doubling. All sizes are `size_t`, so
every sum and product here wraps at 2 to the 64. A NULL list, on which each function returns at
once, is not a list here.
-/

namespace MlinkDevice

/-- `struct list`, with the bytes of its block, or NULL. -/
structure ListT where
  items : Option (List UInt8)
  count : UInt64
  capacity : UInt64
  itemSize : UInt64

/-- What one `realloc` does: whether it succeeds, and what it leaves in the new bytes. -/
structure Realloc where
  succeeds : Bool
  fresh : ℕ → UInt8

/-- What a copy function puts in the new item, from the bytes of the old one. -/
abbrev CopyFunc := List UInt8 → List UInt8

/-- `realloc`, which keeps the old block when it fails. So it does here for 0 bytes as well, where an
allocator may free a block in use and return NULL. -/
def Realloc.realloc (memory : Realloc) (block : Option (List UInt8)) (size : UInt64) :
    Option (List UInt8) :=
  if memory.succeeds then
    some ((List.range size.toNat).map fun i => ((block.getD [])[i]?).getD (memory.fresh i))
  else none

/-- The first `size` bytes at a pointer. -/
def bytesAt (size : ℕ) (memory : List UInt8) : List UInt8 :=
  (List.range size).map fun i => (memory[i]?).getD 0

/-! ## The functions -/

def listInit (itemSize : UInt64) : ListT := ⟨none, 0, 0, itemSize⟩

/-- The item at an offset into the block. -/
def ListT.itemAt (list : ListT) (offset : ℕ) : List UInt8 :=
  ((list.items.getD []).drop offset).take list.itemSize.toNat

/-- The items that the loop of `list_free` and `list_clear` passes to `free_func`. -/
def freedItems (freeFunc : Bool) (list : ListT) : List (List UInt8) :=
  if freeFunc && list.items.isSome then
    (List.range list.count.toNat).map fun i =>
      list.itemAt (UInt64.ofNat i * list.itemSize).toNat
  else []

def listFree (freeFunc : Bool) (list : ListT) : ListT × List (List UInt8) :=
  ({ list with items := none, count := 0, capacity := 0 }, freedItems freeFunc list)

/-- `while (new_capacity < required) new_capacity *= 2`, or `none` when that takes more rounds. -/
def doubleCapacity (required : UInt64) : ℕ → UInt64 → Option UInt64
  | 0, newCapacity => if newCapacity < required then none else some newCapacity
  | rounds + 1, newCapacity =>
    if newCapacity < required then doubleCapacity required rounds (newCapacity * 2)
    else some newCapacity

def ListT.startCapacity (list : ListT) : UInt64 :=
  if list.capacity = 0 then 4 else list.capacity * 2

/-- `list_reserve`, or `none` when its loop does not end: 64 doublings reach zero, and zero stays. -/
def listReserve (memory : Realloc) (list : ListT) (required : UInt64) : Option (Bool × ListT) :=
  if required ≤ list.capacity then some (true, list)
  else (doubleCapacity required 64 list.startCapacity).map fun newCapacity =>
    match memory.realloc list.items (newCapacity * list.itemSize) with
    | none => (false, list)
    | some newItems => (true, { list with items := some newItems, capacity := newCapacity })

/-- What `copy_func`, or `memcpy` when it is NULL, puts in an item. -/
def copied (itemSize : UInt64) (copyFunc : Option CopyFunc) (item : List UInt8) : List UInt8 :=
  match copyFunc with
  | some copyFunc => bytesAt itemSize.toNat (copyFunc item)
  | none => bytesAt itemSize.toNat item

/-- `list_add`, where `item` is the memory at the pointer, outside the list's own block. -/
def listAdd (memory : Realloc) (list : ListT) (item : Option (List UInt8))
    (copyFunc : Option CopyFunc) : Option (Bool × ListT) :=
  match item with
  | none => some (false, list)
  | some item => (listReserve memory list (list.count + 1)).map fun
    | (false, list) => (false, list)
    | (true, list) =>
      let dst := (list.count * list.itemSize).toNat
      (true, { list with
        items := list.items.map fun block => memcpy block dst (copied list.itemSize copyFunc item)
        count := list.count + 1 })

/-- The offset of an item in the block, or NULL. -/
def listGet (list : ListT) (index : UInt64) : Option ℕ :=
  if list.count ≤ index then none else some (index * list.itemSize).toNat

def listGetConst (list : ListT) (index : UInt64) : Option ℕ :=
  if list.count ≤ index then none else some (index * list.itemSize).toNat

def listCount (list : ListT) : UInt64 := list.count

def listCapacity (list : ListT) : UInt64 := list.capacity

/-- What `free_func` leaves in the block is not read again, since the list is empty after it. -/
def listClear (freeFunc : Bool) (list : ListT) : ListT × List (List UInt8) :=
  ({ list with count := 0 }, freedItems freeFunc list)

/-- What `list_clone` returns and leaves in `dst`, with the items that it copied and freed. -/
structure CloneReturn where
  ok : Bool
  dst : ListT
  copied : List (List UInt8) := []
  freed : List (List UInt8) := []

/-- The loop of `list_clone` from index `i` on. The copy function is called for the item at each
index, so it may do something else each time. -/
def cloneItems (memory : ℕ → Realloc) (copyFunc : Option (ℕ → CopyFunc)) (freeFunc : Bool)
    (src : ListT) : ℕ → UInt64 → ListT → List (List UInt8) → Option CloneReturn
  | 0, _, dst, done => some { ok := true, dst, copied := done }
  | left + 1, i, dst, done =>
    let srcItem := (listGetConst src i).map src.itemAt
    let copyFunc' := copyFunc.map (· i.toNat)
    match listAdd (memory i.toNat) dst srcItem copyFunc' with
    | none => none
    | some (false, dst) =>
      let (dst, freed) := listFree freeFunc dst
      some { ok := false, dst, copied := done, freed }
    | some (true, dst) =>
      cloneItems memory copyFunc freeFunc src left (i + 1) dst
        (done ++ (srcItem.map (copied dst.itemSize copyFunc')).toList)

/-- `list_clone`. `src` is the source as it is after `dst` was initialized. -/
def listClone (memory : ℕ → Realloc) (copyFunc : Option (ℕ → CopyFunc)) (freeFunc : Bool)
    (src : ListT) : Option CloneReturn :=
  cloneItems memory copyFunc freeFunc src src.count.toNat 0 (listInit src.itemSize) []

/-! ## Sizes -/

theorem toNat_lt_of_not_le {a b : UInt64} (h : ¬ b ≤ a) : a.toNat < b.toNat :=
  UInt64.lt_iff_toNat_lt.mp (UInt64.not_le.mp h)

theorem toNat_le_of_not_lt {a b : UInt64} (h : ¬ a < b) : b.toNat ≤ a.toNat :=
  UInt64.le_iff_toNat_le.mp (UInt64.not_lt.mp h)

theorem toNat_add_one {i : UInt64} (h : i.toNat + 1 < 2 ^ 64) : (i + 1).toNat = i.toNat + 1 := by
  rw [UInt64.toNat_add, UInt64.toNat_one, Nat.mod_eq_of_lt h]

/-! ## Doubling -/

/-- `c` after `k` doublings that wrap. -/
def doubled (c k : ℕ) : ℕ := c * 2 ^ k % 2 ^ 64

/-- The `k`-th doubling of `c` is the first one that reaches `required`. -/
structure FirstReach (required c k : ℕ) : Prop where
  reaches : required ≤ doubled c k
  below : ∀ j < k, doubled c j < required

theorem doubled_mod (c k : ℕ) : doubled (c % 2 ^ 64) k = doubled c k := Nat.mod_mul_mod c _ _

theorem doubled_zero (c : UInt64) : doubled c.toNat 0 = c.toNat := by
  rw [doubled, Nat.pow_zero, Nat.mul_one, Nat.mod_eq_of_lt c.toNat_lt]

theorem doubled_double (c : UInt64) (k : ℕ) :
    doubled (c * 2).toNat k = doubled c.toNat (k + 1) := by
  have htwo : (2 : UInt64).toNat = 2 := rfl
  rw [UInt64.toNat_mul, htwo, doubled_mod]
  unfold doubled
  rw [Nat.mul_assoc, Nat.mul_comm 2, ← Nat.pow_succ]

theorem doubled_of_le {k : ℕ} (h : 64 ≤ k) (c : ℕ) : doubled c k = 0 :=
  Nat.mod_eq_zero_of_dvd (Nat.dvd_mul_left_of_dvd (Nat.pow_dvd_pow 2 h) c)

theorem doubled_of_lt {c k : ℕ} (h : c * 2 ^ k < 2 ^ 64) : doubled c k = c * 2 ^ k :=
  Nat.mod_eq_of_lt h

theorem firstReach_congr {required c d k : ℕ} (h : ∀ k, doubled c k = doubled d k) :
    FirstReach required c k ↔ FirstReach required d k :=
  ⟨fun hc => ⟨h k ▸ hc.reaches, fun j hj => h j ▸ hc.below j hj⟩,
    fun hd => ⟨(h k).symm ▸ hd.reaches, fun j hj => (h j).symm ▸ hd.below j hj⟩⟩

theorem firstReach_zero {required : ℕ} {c : UInt64} :
    FirstReach required c.toNat 0 ↔ required ≤ c.toNat := by
  constructor
  · intro h
    rw [← doubled_zero]
    exact h.reaches
  · intro h
    refine ⟨?_, fun j hj => absurd hj (Nat.not_lt_zero j)⟩
    rw [doubled_zero]
    exact h

theorem firstReach_succ {required k : ℕ} {c : UInt64} (hlt : c.toNat < required) :
    FirstReach required c.toNat (k + 1) ↔ FirstReach required (c * 2).toNat k := by
  constructor
  · intro h
    refine ⟨?_, fun j hj => ?_⟩
    · rw [doubled_double]
      exact h.reaches
    · rw [doubled_double]
      exact h.below (j + 1) (Nat.succ_lt_succ hj)
  · intro h
    refine ⟨?_, fun j hj => ?_⟩
    · rw [← doubled_double]
      exact h.reaches
    · cases j with
      | zero =>
        rw [doubled_zero]
        exact hlt
      | succ j =>
        rw [← doubled_double]
        exact h.below j (Nat.lt_of_succ_lt_succ hj)

theorem FirstReach.le {required c k : ℕ} (h : FirstReach required c k) : k ≤ 64 := by
  by_contra hlate
  have hlt : 64 < k := Nat.lt_of_not_le hlate
  have hpos := h.below 64 hlt
  have hreaches := h.reaches
  rw [doubled_of_le (Nat.le_refl 64)] at hpos
  rw [doubled_of_le hlt.le] at hreaches
  omega

theorem FirstReach.unique {required c j k : ℕ} (hj : FirstReach required c j)
    (hk : FirstReach required c k) : j = k := by
  rcases Nat.lt_trichotomy j k with hlt | heq | hgt
  · exact absurd hj.reaches (Nat.not_le.mpr (hk.below j hlt))
  · exact heq
  · exact absurd hk.reaches (Nat.not_le.mpr (hj.below k hgt))

theorem firstReach_of_le {required c v : UInt64} (rounds : ℕ) (h : required.toNat ≤ c.toNat) :
    c = v ↔ ∃ k ≤ rounds, FirstReach required.toNat c.toNat k ∧ v.toNat = doubled c.toNat k := by
  constructor
  · rintro rfl
    exact ⟨0, Nat.zero_le _, firstReach_zero.mpr h, (doubled_zero c).symm⟩
  · rintro ⟨k, -, hfirst, hv⟩
    cases k with
    | zero =>
      rw [doubled_zero] at hv
      exact (UInt64.toNat_inj.mp hv).symm
    | succ k =>
      have hbelow := hfirst.below 0 (Nat.succ_pos k)
      rw [doubled_zero] at hbelow
      exact absurd h (Nat.not_le.mpr hbelow)

theorem doubleCapacity_eq_some {required c v : UInt64} {rounds : ℕ} :
    doubleCapacity required rounds c = some v ↔
      ∃ k ≤ rounds, FirstReach required.toNat c.toNat k ∧ v.toNat = doubled c.toNat k := by
  induction rounds generalizing c with
  | zero =>
    unfold doubleCapacity
    by_cases hlt : c < required
    · rw [if_pos hlt]
      refine ⟨fun h => absurd h.symm (Option.some_ne_none v), ?_⟩
      rintro ⟨k, hk, hfirst, -⟩
      obtain rfl := Nat.le_zero.mp hk
      exact absurd (firstReach_zero.mp hfirst) (Nat.not_le.mpr (UInt64.lt_iff_toNat_lt.mp hlt))
    · rw [if_neg hlt, Option.some_inj]
      exact firstReach_of_le 0 (toNat_le_of_not_lt hlt)
  | succ rounds ih =>
    unfold doubleCapacity
    by_cases hlt : c < required
    · have hlt' := UInt64.lt_iff_toNat_lt.mp hlt
      rw [if_pos hlt, ih]
      constructor
      · rintro ⟨k, hk, hfirst, hv⟩
        refine ⟨k + 1, Nat.succ_le_succ hk, (firstReach_succ hlt').mpr hfirst, ?_⟩
        rw [hv, doubled_double]
      · rintro ⟨k, hk, hfirst, hv⟩
        cases k with
        | zero => exact absurd (firstReach_zero.mp hfirst) (Nat.not_le.mpr hlt')
        | succ k =>
          refine ⟨k, Nat.le_of_succ_le_succ hk, (firstReach_succ hlt').mp hfirst, ?_⟩
          rw [hv, doubled_double]
    · rw [if_neg hlt, Option.some_inj]
      exact firstReach_of_le _ (toNat_le_of_not_lt hlt)

/-! ## The capacity that a reserve takes -/

/-- The capacity that the doubling starts from. -/
def ListT.firstCapacity (list : ListT) : ℕ :=
  if list.capacity.toNat = 0 then 4 else list.capacity.toNat * 2

theorem ListT.firstCapacity_pos (list : ListT) : 0 < list.firstCapacity := by
  unfold ListT.firstCapacity
  by_cases hzero : list.capacity.toNat = 0
  · rw [if_pos hzero]
    decide
  · rw [if_neg hzero]
    omega

/-- The first capacity that is enough comes from the `k`-th doubling, and its bytes fit in a
`size_t`. -/
structure ListT.Doubles (list : ListT) (required k : ℕ) : Prop where
  first : FirstReach required list.firstCapacity k
  fits : doubled list.firstCapacity k * list.itemSize.toNat < 2 ^ 64

theorem ListT.doubled_startCapacity (list : ListT) (k : ℕ) :
    doubled list.startCapacity.toNat k = doubled list.firstCapacity k := by
  have htwo : (2 : UInt64).toNat = 2 := rfl
  unfold ListT.startCapacity ListT.firstCapacity
  by_cases hzero : list.capacity = 0
  · rw [if_pos hzero, if_pos (by rw [hzero]; rfl)]
    rfl
  · have hne : list.capacity.toNat ≠ 0 := fun h => hzero (UInt64.toNat_inj.mp h)
    rw [if_neg hzero, if_neg hne, UInt64.toNat_mul, htwo, doubled_mod]

theorem ListT.firstReach_start {list : ListT} {required k : ℕ} :
    FirstReach required list.startCapacity.toNat k ↔ FirstReach required list.firstCapacity k :=
  firstReach_congr list.doubled_startCapacity

theorem ListT.doubleCapacity_start {list : ListT} {required v : UInt64} {rounds : ℕ}
    (h : doubleCapacity required rounds list.startCapacity = some v) :
    doubleCapacity required 64 list.startCapacity = some v := by
  obtain ⟨k, -, hfirst, hv⟩ := doubleCapacity_eq_some.mp h
  exact doubleCapacity_eq_some.mpr ⟨k, hfirst.le, hfirst, hv⟩

/-! ## A reserve -/

theorem getElem?_realloc {memory : Realloc} {block : Option (List UInt8)} {size : UInt64}
    {newItems : List UInt8} (h : memory.realloc block size = some newItems) :
    newItems.length = size.toNat ∧
      ∀ i < size.toNat, newItems[i]? = some (((block.getD [])[i]?).getD (memory.fresh i)) := by
  obtain ⟨-, h⟩ := Option.ite_none_right_eq_some.mp h
  obtain rfl := Option.some.inj h
  refine ⟨by rw [List.length_map, List.length_range], fun i hi => ?_⟩
  rw [List.getElem?_map, List.getElem?_range hi]
  rfl

theorem listReserve_some {memory : Realloc} {list list' : ListT} {required : UInt64} {ok : Bool}
    (h : listReserve memory list required = some (ok, list')) :
    (required.toNat ≤ list.capacity.toNat ∧ ok = true ∧ list' = list) ∨
    (list.capacity.toNat < required.toNat ∧ ok = false ∧ list' = list) ∨
    (list.capacity.toNat < required.toNat ∧ ok = true ∧ ∃ k capacity newItems,
      FirstReach required.toNat list.firstCapacity k ∧
      capacity.toNat = doubled list.firstCapacity k ∧
      memory.realloc list.items (capacity * list.itemSize) = some newItems ∧
      list' = { list with items := some newItems, capacity }) := by
  unfold listReserve at h
  by_cases hroom : required ≤ list.capacity
  · rw [if_pos hroom] at h
    cases h
    exact .inl ⟨UInt64.le_iff_toNat_le.mp hroom, rfl, rfl⟩
  · have hfull : list.capacity.toNat < required.toNat := toNat_lt_of_not_le hroom
    rw [if_neg hroom, Option.map_eq_some_iff] at h
    obtain ⟨capacity, hloop, h⟩ := h
    obtain ⟨k, -, hfirst, hv⟩ := doubleCapacity_eq_some.mp hloop
    rw [list.doubled_startCapacity] at hv
    cases hblock : memory.realloc list.items (capacity * list.itemSize) with
    | none =>
      rw [hblock] at h
      cases h
      exact .inr (.inl ⟨hfull, rfl, rfl⟩)
    | some newItems =>
      rw [hblock] at h
      cases h
      exact .inr (.inr ⟨hfull, rfl, k, capacity, newItems, ListT.firstReach_start.mp hfirst, hv,
        hblock, rfl⟩)

theorem listReserve_grown {memory : Realloc} {list list' : ListT} {required : UInt64}
    (hfull : list.capacity.toNat < required.toNat)
    (h : listReserve memory list required = some (true, list')) : ∃ k capacity newItems,
      FirstReach required.toNat list.firstCapacity k ∧
      capacity.toNat = doubled list.firstCapacity k ∧
      newItems.length = (capacity * list.itemSize).toNat ∧
      list' = { list with items := some newItems, capacity } := by
  rcases listReserve_some h with ⟨hle, -⟩ | ⟨-, hfails, -⟩ |
    ⟨-, -, k, capacity, newItems, hfirst, hcapacity, hblock, hlist'⟩
  · exact absurd hle (Nat.not_le.mpr hfull)
  · exact Bool.noConfusion hfails
  · exact ⟨k, capacity, newItems, hfirst, hcapacity, (getElem?_realloc hblock).1, hlist'⟩

theorem listReserve_ends (memory : Realloc) {list : ListT} {required : UInt64} {k : ℕ}
    (hfull : list.capacity.toNat < required.toNat)
    (hfirst : FirstReach required.toNat list.firstCapacity k) :
    ∃ list', listReserve memory list required = some (memory.succeeds, list') := by
  have hroom : ¬ required ≤ list.capacity :=
    fun hle => Nat.not_le.mpr hfull (UInt64.le_iff_toNat_le.mp hle)
  have hstart := ListT.firstReach_start.mpr hfirst
  have hlt : doubled list.startCapacity.toNat k < 2 ^ 64 := Nat.mod_lt _ (by decide)
  have hloop : doubleCapacity required 64 list.startCapacity =
      some (UInt64.ofNat (doubled list.startCapacity.toNat k)) :=
    doubleCapacity_eq_some.mpr ⟨k, hstart.le, hstart, UInt64.toNat_ofNat_of_lt hlt⟩
  unfold listReserve Realloc.realloc
  rw [if_neg hroom, hloop]
  cases memory.succeeds with
  | false => exact ⟨_, rfl⟩
  | true => exact ⟨_, rfl⟩

end MlinkDevice
