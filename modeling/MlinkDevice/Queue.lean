import Mathlib.Algebra.GroupWithZero.Nat
import MlinkDevice.CondVar
import MlinkDevice.Ring
import MlinkDevice.Runs

/-!
# The bounded queue

`queue.c`: items of a fixed size in a ring of bytes, with a mutex and two condition variables.
The functions here are the sections between two waits, and each of them is one step.
-/

namespace MlinkDevice

/-! ## The ring of bytes -/

/-- `queue_t`, without its mutex and condition variables. -/
structure QueueT where
  buffer : List UInt8
  itemSize : UInt32
  queueSize : UInt32
  head : UInt32
  tail : UInt32
  count : UInt32

def memcpy (dst : List UInt8) (offset : ℕ) (src : List UInt8) : List UInt8 :=
  dst.take offset ++ src ++ dst.drop (offset + src.length)

/-- `queue_create`, where `fresh` is what `malloc` leaves in the buffer. -/
def queueCreate (itemSize queueSize : UInt32) (fresh : ℕ → UInt8) : QueueT where
  buffer := (List.range (itemSize * queueSize).toNat).map fresh
  itemSize := itemSize
  queueSize := queueSize
  head := 0
  tail := 0
  count := 0

/-- A section of `queue_send`, unless it waits for a free slot. -/
def queueSend (q : QueueT) (buffer : List UInt8) : Option QueueT :=
  if q.count = q.queueSize then none
  else some { q with
    buffer := memcpy q.buffer (q.tail * q.itemSize).toNat (buffer.take q.itemSize.toNat)
    tail := (q.tail + 1) % q.queueSize
    count := q.count + 1 }

/-- A section of `queue_recv`, unless it waits for an item: the result, the caller's buffer and
the queue. -/
def queueRecv (q : QueueT) (buffer : List UInt8) (timeoutMs : Int32) (timedOut : Bool) :
    Option (Int32 × List UInt8 × QueueT) :=
  if timeoutMs ≠ 0 ∧ q.count = 0 ∧ timedOut = false then none
  else if q.count = 0 then some (-1, buffer, q)
  else some (0,
    memcpy buffer 0 ((q.buffer.drop (q.head * q.itemSize).toNat).take q.itemSize.toNat),
    { q with head := (q.head + 1) % q.queueSize, count := q.count - 1 })

def queueReset (q : QueueT) : QueueT :=
  { q with
    head := 0
    tail := 0
    count := 0
    buffer := memcpy q.buffer 0 (List.replicate (q.itemSize * q.queueSize).toNat 0) }

/-! ## Slots -/

def slotOf (size : ℕ) (buffer : List UInt8) (i : ℕ) : List UInt8 := (buffer.drop (i * size)).take size

/-- The items in the queue: the `count` slots from `head` on. -/
def QueueT.contents (q : QueueT) : List (List UInt8) :=
  Ring.contents (slotOf q.itemSize.toNat q.buffer) q.queueSize.toNat q.head.toNat q.count.toNat

/-- The indices are within the ring, and the ring within the buffer. -/
structure QueueT.Valid (q : QueueT) : Prop where
  size_pos : 1 ≤ q.queueSize.toNat
  fits : q.itemSize.toNat * q.queueSize.toNat < 2 ^ 32
  length : q.buffer.length = q.itemSize.toNat * q.queueSize.toNat
  head_lt : q.head.toNat < q.queueSize.toNat
  count_le : q.count.toNat ≤ q.queueSize.toNat
  tail_eq : q.tail.toNat = (q.head.toNat + q.count.toNat) % q.queueSize.toNat

theorem length_memcpy {dst src : List UInt8} {offset : ℕ} (h : offset + src.length ≤ dst.length) :
    (memcpy dst offset src).length = dst.length := by
  simp only [memcpy, List.length_append, List.length_take, List.length_drop]
  omega

theorem getElem?_memcpy {dst src : List UInt8} {offset : ℕ} (h : offset + src.length ≤ dst.length)
    (i : ℕ) : (memcpy dst offset src)[i]? =
      if offset ≤ i ∧ i < offset + src.length then src[i - offset]? else dst[i]? := by
  have htake : (dst.take offset).length = offset := List.length_take_of_le (by omega)
  unfold memcpy
  rw [List.append_assoc]
  by_cases hlow : i < offset
  · rw [List.getElem?_append_left (by omega), List.getElem?_take_of_lt hlow, if_neg (by omega)]
  · rw [List.getElem?_append_right (by omega), htake]
    by_cases hmid : i < offset + src.length
    · rw [List.getElem?_append_left (by omega), if_pos (by omega)]
    · rw [List.getElem?_append_right (by omega), if_neg (by omega), List.getElem?_drop]
      congr 1
      omega

theorem getElem?_slotOf (size : ℕ) (buffer : List UInt8) (i k : ℕ) :
    (slotOf size buffer i)[k]? = if k < size then buffer[i * size + k]? else none := by
  unfold slotOf
  rw [List.getElem?_take, List.getElem?_drop]

theorem length_slotOf {size n : ℕ} {buffer : List UInt8} (h : buffer.length = size * n) {i : ℕ}
    (hi : i < n) : (slotOf size buffer i).length = size := by
  have hroom : (i + 1) * size ≤ n * size := Nat.mul_le_mul_right size hi
  rw [Nat.add_mul, Nat.one_mul, Nat.mul_comm n] at hroom
  rw [slotOf, List.length_take, List.length_drop, h]
  omega

theorem slotOf_memcpy {size n : ℕ} {buffer item : List UInt8} (h : buffer.length = size * n)
    (hitem : item.length = size) {i : ℕ} (hi : i < n) :
    slotOf size (memcpy buffer (i * size) item) = Function.update (slotOf size buffer) i item := by
  have hroom : (i + 1) * size ≤ n * size := Nat.mul_le_mul_right size hi
  rw [Nat.add_mul, Nat.one_mul, Nat.mul_comm n] at hroom
  funext j
  refine List.ext_getElem? fun k => ?_
  rw [getElem?_slotOf, getElem?_memcpy (by omega), hitem]
  by_cases hk : k < size
  · rw [if_pos hk]
    rcases Nat.lt_trichotomy j i with hlt | rfl | hgt
    · have hbefore : (j + 1) * size ≤ i * size := Nat.mul_le_mul_right size hlt
      rw [Nat.add_mul, Nat.one_mul] at hbefore
      rw [if_neg (by omega), Function.update_of_ne hlt.ne, getElem?_slotOf, if_pos hk]
    · rw [if_pos (by omega), Function.update_self]
      congr 1
      omega
    · have hafter : (i + 1) * size ≤ j * size := Nat.mul_le_mul_right size hgt
      rw [Nat.add_mul, Nat.one_mul] at hafter
      rw [if_neg (by omega), Function.update_of_ne hgt.ne', getElem?_slotOf, if_pos hk]
  · rw [if_neg hk]
    by_cases hj : j = i
    · subst hj
      rw [Function.update_self, List.getElem?_eq_none (by omega)]
    · rw [Function.update_of_ne hj, getElem?_slotOf, if_neg hk]

/-! ## The sections -/

section Sections

variable {q : QueueT} {buffer : List UInt8}

theorem QueueT.Valid.offset (h : q.Valid) {i : UInt32} (hi : i.toNat < q.queueSize.toNat) :
    (i * q.itemSize).toNat = i.toNat * q.itemSize.toNat := by
  have hfits := h.fits
  rw [Nat.mul_comm] at hfits
  rw [UInt32.toNat_mul, Nat.mod_eq_of_lt]
  exact Nat.lt_of_le_of_lt (Nat.mul_le_mul_right _ hi.le) hfits

theorem QueueT.Valid.tail_lt (h : q.Valid) : q.tail.toNat < q.queueSize.toNat := by
  rw [h.tail_eq]
  exact Nat.mod_lt _ h.size_pos

theorem toNat_next {i size : UInt32} (hi : i.toNat < size.toNat) :
    ((i + 1) % size).toNat = (i.toNat + 1) % size.toNat := by
  have hsize := size.toNat_lt
  have hnext : i.toNat + 1 < 2 ^ 32 := by omega
  rw [UInt32.toNat_mod, UInt32.toNat_add, UInt32.toNat_one, Nat.mod_eq_of_lt hnext]

theorem queueCreate_valid {itemSize queueSize : UInt32} (hsize : 1 ≤ queueSize.toNat)
    (hfits : itemSize.toNat * queueSize.toNat < 2 ^ 32) (fresh : ℕ → UInt8) :
    (queueCreate itemSize queueSize fresh).Valid where
  size_pos := hsize
  fits := hfits
  length := by
    rw [queueCreate, List.length_map, List.length_range, UInt32.toNat_mul, Nat.mod_eq_of_lt hfits]
  head_lt := hsize
  count_le := Nat.zero_le _
  tail_eq := by simp [queueCreate]

theorem queueSend_some {q' : QueueT} (hle : q.count.toNat ≤ q.queueSize.toNat)
    (h : queueSend q buffer = some q') :
    q.count.toNat < q.queueSize.toNat ∧ q'.count.toNat = q.count.toNat + 1 ∧
      q'.queueSize = q.queueSize ∧ q'.itemSize = q.itemSize := by
  unfold queueSend at h
  obtain ⟨hroom, h⟩ := Option.ite_none_left_eq_some.mp h
  obtain rfl := Option.some.inj h
  have hne : q.count.toNat ≠ q.queueSize.toNat := fun heq => hroom (UInt32.toNat_inj.mp heq)
  have hsize := q.queueSize.toNat_lt
  have hnext : q.count.toNat + 1 < 2 ^ 32 := by omega
  refine ⟨Nat.lt_of_le_of_ne hle hne, ?_, rfl, rfl⟩
  rw [UInt32.toNat_add, UInt32.toNat_one, Nat.mod_eq_of_lt hnext]

theorem queueSend_none (h : queueSend q buffer = none) : q.count = q.queueSize := by
  by_contra hroom
  rw [queueSend, if_neg hroom] at h
  exact Option.some_ne_none _ h

theorem QueueT.Valid.send {q' : QueueT} (h : q.Valid) (hbuffer : q.itemSize.toNat ≤ buffer.length)
    (hsend : queueSend q buffer = some q') :
    q'.Valid ∧ q'.contents = q.contents ++ [buffer.take q.itemSize.toNat] := by
  obtain ⟨hroom, hcount, -, -⟩ := queueSend_some h.count_le hsend
  have hitem : (buffer.take q.itemSize.toNat).length = q.itemSize.toNat :=
    List.length_take_of_le hbuffer
  have hwithin : q.tail.toNat * q.itemSize.toNat + q.itemSize.toNat ≤ q.buffer.length := by
    have hnext := Nat.mul_le_mul_right q.itemSize.toNat h.tail_lt
    rw [Nat.succ_mul, Nat.mul_comm q.queueSize.toNat, ← h.length] at hnext
    exact hnext
  have hslots := slotOf_memcpy h.length hitem h.tail_lt
  unfold queueSend at hsend
  obtain ⟨-, hsend⟩ := Option.ite_none_left_eq_some.mp hsend
  obtain rfl := Option.some.inj hsend
  rw [h.offset h.tail_lt]
  refine ⟨⟨h.size_pos, h.fits, ?_, h.head_lt, hcount ▸ hroom, ?_⟩, ?_⟩
  · exact (length_memcpy (by rw [hitem]; exact hwithin)).trans h.length
  · dsimp only at hcount ⊢
    rw [toNat_next h.tail_lt, hcount, h.tail_eq, Nat.mod_add_mod, Nat.add_assoc]
  · unfold QueueT.contents
    dsimp only at hcount ⊢
    rw [hslots, hcount, h.tail_eq]
    exact Ring.contents_push hroom _

theorem queueRecv_some {timeoutMs result : Int32} {timedOut : Bool} {got : List UInt8} {q' : QueueT}
    (h : queueRecv q buffer timeoutMs timedOut = some (result, got, q')) :
    (result = -1 ∧ q.count = 0 ∧ got = buffer ∧ q' = q) ∨
    (result = 0 ∧ q'.count.toNat + 1 = q.count.toNat ∧ q'.queueSize = q.queueSize ∧
      q'.itemSize = q.itemSize) := by
  unfold queueRecv at h
  obtain ⟨-, h⟩ := Option.ite_none_left_eq_some.mp h
  by_cases hcount : q.count = 0
  · rw [if_pos hcount] at h
    cases h
    exact .inl ⟨rfl, hcount, rfl, rfl⟩
  · rw [if_neg hcount] at h
    cases h
    have hne : q.count.toNat ≠ 0 := fun heq => hcount (UInt32.toNat_inj.mp heq)
    have hone : (1 : UInt32) ≤ q.count := UInt32.le_iff_toNat_le.mpr (Nat.pos_of_ne_zero hne)
    refine .inr ⟨rfl, ?_, rfl, rfl⟩
    rw [UInt32.toNat_sub_of_le _ _ hone, UInt32.toNat_one]
    omega

theorem queueRecv_taken {timeoutMs : Int32} {timedOut : Bool} {got : List UInt8} {q' : QueueT}
    (h : queueRecv q buffer timeoutMs timedOut = some (0, got, q')) :
    q'.count.toNat + 1 = q.count.toNat ∧ q'.queueSize = q.queueSize ∧ q'.itemSize = q.itemSize := by
  rcases queueRecv_some h with ⟨hfails, -⟩ | ⟨-, htaken⟩
  · exact absurd hfails (by decide)
  · exact htaken

theorem queueRecv_none {timeoutMs : Int32} {timedOut : Bool}
    (h : queueRecv q buffer timeoutMs timedOut = none) : q.count = 0 := by
  by_contra hcount
  rw [queueRecv, if_neg fun hwaits => hcount hwaits.2.1, if_neg hcount] at h
  exact Option.some_ne_none _ h

theorem QueueT.Valid.recv {timeoutMs : Int32} {timedOut : Bool} {got : List UInt8} {q' : QueueT}
    (h : q.Valid) (hrecv : queueRecv q buffer timeoutMs timedOut = some (0, got, q')) :
    q'.Valid ∧ q.contents = got.take q.itemSize.toNat :: q'.contents := by
  obtain ⟨hcount, -⟩ := queueRecv_taken hrecv
  have hslot := length_slotOf h.length h.head_lt
  unfold queueRecv at hrecv
  obtain ⟨-, hrecv⟩ := Option.ite_none_left_eq_some.mp hrecv
  split_ifs at hrecv with hempty
  · rw [hempty] at hcount
    exact absurd hcount (Nat.succ_ne_zero _)
  · cases hrecv
    dsimp only at hcount
    rw [h.offset h.head_lt]
    refine ⟨⟨h.size_pos, h.fits, h.length, ?_, ?_, ?_⟩, ?_⟩
    · dsimp only
      rw [toNat_next h.head_lt]
      exact Nat.mod_lt _ h.size_pos
    · have hle := h.count_le
      dsimp only
      omega
    · dsimp only
      rw [toNat_next h.head_lt, h.tail_eq, ← hcount, Nat.mod_add_mod]
      congr 1
      omega
    · have hgot : (memcpy buffer 0 (slotOf q.itemSize.toNat q.buffer q.head.toNat)).take
          q.itemSize.toNat = slotOf q.itemSize.toNat q.buffer q.head.toNat := by
        unfold memcpy
        rw [List.take_zero, List.nil_append, List.take_append_of_le_length hslot.ge,
          List.take_of_length_le hslot.le]
      unfold QueueT.contents
      dsimp only
      rw [toNat_next h.head_lt, ← hcount, Ring.contents_succ, Nat.mod_eq_of_lt h.head_lt]
      exact congrArg (· :: _) hgot.symm

theorem queueReset_spec (h : q.Valid) : (queueReset q).Valid ∧ (queueReset q).contents = [] := by
  have hproduct : (q.itemSize * q.queueSize).toNat = q.itemSize.toNat * q.queueSize.toNat := by
    rw [UInt32.toNat_mul, Nat.mod_eq_of_lt h.fits]
  refine ⟨⟨h.size_pos, h.fits, ?_, h.size_pos, Nat.zero_le _, ?_⟩, rfl⟩
  · have hlength := h.length
    refine (length_memcpy ?_).trans hlength
    rw [List.length_replicate, hproduct, hlength, Nat.zero_add]
  · simp [queueReset]

end Sections

end MlinkDevice
