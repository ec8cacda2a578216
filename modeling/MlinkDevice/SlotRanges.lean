import Mathlib.Algebra.GroupWithZero.Nat
import MlinkDevice.QueueFifo

/-!
# The slots of the queue in memory

`queue.c` multiplies in 32 bits: the item size by the number of slots for the buffer, and by a
slot for its offset. The two agree as long as the first product does not wrap.
-/

namespace MlinkDevice

/-- The bytes that `queue_create` asks for. -/
def QueueT.allocated (q : QueueT) : ℕ := (q.itemSize * q.queueSize).toNat

/-- The bytes of a slot lie in the buffer. -/
def QueueT.SlotWithin (q : QueueT) (slot : UInt32) : Prop :=
  (slot * q.itemSize).toNat + q.itemSize.toNat ≤ q.allocated

/-- The bytes of two slots do not overlap. -/
def QueueT.SlotsApart (q : QueueT) (i j : UInt32) : Prop :=
  (i * q.itemSize).toNat + q.itemSize.toNat ≤ (j * q.itemSize).toNat ∨
    (j * q.itemSize).toNat + q.itemSize.toNat ≤ (i * q.itemSize).toNat

/-- The slots at the head and the tail lie in the buffer, no two slots overlap, and a send or a
receive that goes on to its modulus finds a queue that has slots. A queue without slots has no
head and no tail to read. -/
structure QueueT.SlotsSafe (q : QueueT) : Prop where
  head : q.queueSize ≠ 0 → q.SlotWithin q.head
  tail : q.queueSize ≠ 0 → q.SlotWithin q.tail
  apart : ∀ i j, i < q.queueSize → j < q.queueSize → i ≠ j → q.SlotsApart i j
  modulus : q.count ≠ q.queueSize ∨ q.count ≠ 0 → q.queueSize ≠ 0

/-! ## A product that fits -/

section Valid

variable {q : QueueT}

theorem QueueT.Valid.slotWithin (h : q.Valid) {slot : UInt32}
    (hslot : slot.toNat < q.queueSize.toNat) : q.SlotWithin slot := by
  have hnext := Nat.mul_le_mul_right q.itemSize.toNat hslot
  rw [Nat.succ_mul, Nat.mul_comm q.queueSize.toNat] at hnext
  unfold QueueT.SlotWithin QueueT.allocated
  rw [h.offset hslot, UInt32.toNat_mul, Nat.mod_eq_of_lt h.fits]
  exact hnext

theorem QueueT.Valid.slotsApart (h : q.Valid) {i j : UInt32} (hi : i.toNat < q.queueSize.toNat)
    (hj : j.toNat < q.queueSize.toNat) (hne : i ≠ j) : q.SlotsApart i j := by
  have hne' : i.toNat ≠ j.toNat := fun heq => hne (UInt32.toNat_inj.mp heq)
  unfold QueueT.SlotsApart
  rw [h.offset hi, h.offset hj]
  rcases Nat.lt_or_gt_of_ne hne' with hlt | hgt
  · have hnext := Nat.mul_le_mul_right q.itemSize.toNat hlt
    rw [Nat.succ_mul] at hnext
    exact .inl hnext
  · have hnext := Nat.mul_le_mul_right q.itemSize.toNat hgt
    rw [Nat.succ_mul] at hnext
    exact .inr hnext

theorem QueueT.Valid.slotsSafe (h : q.Valid) : q.SlotsSafe where
  head _ := h.slotWithin h.head_lt
  tail _ := h.slotWithin h.tail_lt
  apart _ _ hi hj := h.slotsApart (UInt32.lt_iff_toNat_lt.mp hi) (UInt32.lt_iff_toNat_lt.mp hj)
  modulus _ hzero := by
    have hpos := h.size_pos
    rw [hzero] at hpos
    exact absurd hpos (by decide)

end Valid

/-! ## No slots -/

/-- A queue without slots is full and empty at once, and stays so. -/
structure QueueT.NoSlots (q : QueueT) : Prop where
  queueSize : q.queueSize = 0
  count : q.count = 0

theorem QueueT.NoSlots.slotsSafe {q : QueueT} (h : q.NoSlots) : q.SlotsSafe where
  head hne := absurd h.queueSize hne
  tail hne := absurd h.queueSize hne
  apart i _ hi := absurd (h.queueSize ▸ hi) (by simp)
  modulus hused := by
    rw [h.queueSize, h.count] at hused
    exact absurd rfl (hused.elim id id)

/-- **Step.** -/
theorem queueStep_noSlots (s : QueueSystem) (a : QueueAction) (t : QueueSystem)
    (h : s.queue.NoSlots) (hstep : queueStep s a = some t) : t.queue.NoSlots := by
  rcases queueStep_cases hstep with ⟨thread, buffer, chosen, u, -, -, hpass⟩ |
    ⟨thread, buffer, timeoutMs, timedOut, chosen, u, -, -, hpass⟩ |
    ⟨thread, u, status, -, -, -, -, rfl⟩ | rfl
  · rcases sendPass_cases hpass with ⟨-, rfl⟩ | ⟨queue, hsend, -⟩
    · exact h
    · rw [queueSend, if_pos (h.count.trans h.queueSize.symm)] at hsend
      exact absurd hsend.symm (Option.some_ne_none queue)
  · rcases recvPass_cases hpass with ⟨-, rfl⟩ | ⟨-, rfl⟩ | ⟨got, queue, hrecv, -⟩
    · exact h
    · exact h
    · obtain ⟨htaken, -⟩ := queueRecv_taken hrecv
      rw [h.count] at htaken
      exact absurd htaken (Nat.succ_ne_zero _)
  · exact h
  · exact ⟨h.queueSize, rfl⟩

theorem slots_safe_of_fits {itemSize queueSize : UInt32}
    (hfits : itemSize.toNat * queueSize.toNat < 2 ^ 32) {fresh : ℕ → UInt8} {threads : ℕ}
    {actions : List QueueAction} {s : QueueSystem}
    (hrun : Runs.run queueStep (.start itemSize queueSize fresh threads) actions = some s) :
    s.queue.SlotsSafe := by
  by_cases hsize : queueSize = 0
  · have h : s.queue.NoSlots := Runs.run_invariant (fun s => s.queue.NoSlots)
      (fun s a t hs _ => queueStep_noSlots s a t hs) ⟨hsize, rfl⟩ (Runs.along_true _ actions) hrun
    exact h.slotsSafe
  · have hpos : 1 ≤ queueSize.toNat :=
      Nat.pos_of_ne_zero fun heq => hsize (UInt32.toNat_inj.mp heq)
    have h : s.InOrder := Runs.run_invariant QueueSystem.InOrder
      (fun s a t hs _ => queueStep_inOrder s a t hs) (start_inOrder hpos hfits fresh threads)
      (Runs.along_true _ actions) hrun
    exact h.valid.slotsSafe

/-! ## A product that wraps -/

/-- A thread on its own that has sent `n` items. -/
structure QueueSystem.Sent (itemSize queueSize : UInt32) (n : ℕ) (s : QueueSystem) : Prop where
  itemSize : s.queue.itemSize = itemSize
  queueSize : s.queue.queueSize = queueSize
  tail : s.queue.tail.toNat = n
  count : s.queue.count.toNat = n
  threads : s.threads = [.idle]

section Sends

variable {itemSize queueSize : UInt32}

theorem QueueSystem.Sent.send {n : ℕ} {s : QueueSystem} (h : s.Sent itemSize queueSize n)
    (hroom : n + 1 < queueSize.toNat) : ∃ t,
    queueStep s (.send 0 (List.replicate itemSize.toNat 0) []) = some t ∧
      t.Sent itemSize queueSize (n + 1) := by
  have hfull : s.queue.count ≠ s.queue.queueSize := by
    intro heq
    have hcount := h.count
    rw [heq, h.queueSize] at hcount
    omega
  have htail : s.queue.tail.toNat < s.queue.queueSize.toNat := by
    rw [h.tail, h.queueSize]
    omega
  have hsize := queueSize.toNat_lt
  have hsmall : n + 1 < 2 ^ 32 := by omega
  have hwakes : condNotEmpty.Wakes [] [.idle] := by decide
  have hcall : s.threads[0]? = some .idle ∧
      s.queue.itemSize.toNat ≤ (List.replicate itemSize.toNat (0 : UInt8)).length := by
    rw [h.threads, h.itemSize, List.length_replicate]
    exact ⟨rfl, Nat.le_refl _⟩
  have hstep : queueStep s (.send 0 (List.replicate itemSize.toNat 0) []) =
      s.sendPass 0 (List.replicate itemSize.toNat 0) [] := if_pos hcall
  rw [hstep]
  simp only [QueueSystem.sendPass, queueSend, if_neg hfull, h.threads, List.set_cons_zero,
    if_pos hwakes]
  refine ⟨_, rfl, h.itemSize, h.queueSize, ?_, ?_, rfl⟩
  · dsimp only
    rw [toNat_next htail, h.tail, h.queueSize, Nat.mod_eq_of_lt hroom]
  · dsimp only
    rw [UInt32.toNat_add, UInt32.toNat_one, h.count, Nat.mod_eq_of_lt hsmall]

theorem run_sends (itemSize : UInt32) (fresh : ℕ → UInt8) (n : ℕ) (hn : n < queueSize.toNat) : ∃ s,
    Runs.run queueStep (.start itemSize queueSize fresh 1)
      (List.replicate n (.send 0 (List.replicate itemSize.toNat 0) [])) = some s ∧
    s.Sent itemSize queueSize n := by
  induction n with
  | zero => exact ⟨_, rfl, rfl, rfl, rfl, rfl, rfl⟩
  | succ n ih =>
    obtain ⟨s, hrun, hsent⟩ := ih (by omega)
    obtain ⟨t, hstep, hnext⟩ := hsent.send hn
    refine ⟨t, ?_, hnext⟩
    rw [List.replicate_succ', Runs.run_append, hrun, Option.bind_some]
    exact Runs.run_cons.mpr ⟨t, hstep, rfl⟩

end Sends

/-- The queue is safe in every reachable state exactly when the product of the item size and the
number of slots is below 2 to the 32. -/
theorem slots_safe_iff (itemSize queueSize : UInt32) :
    (∀ fresh threads actions s,
      Runs.run queueStep (.start itemSize queueSize fresh threads) actions = some s →
        s.queue.SlotsSafe) ↔ itemSize.toNat * queueSize.toNat < 2 ^ 32 := by
  refine ⟨fun h => ?_, fun hfits _ _ _ _ hrun => slots_safe_of_fits hfits hrun⟩
  by_contra hwraps
  have hsize : 0 < itemSize.toNat := by
    by_contra hzero
    rw [Nat.eq_zero_of_not_pos hzero, Nat.zero_mul] at hwraps
    exact hwraps (by decide)
  -- The first slot that does not lie in the buffer, whose size has wrapped.
  let allocated := itemSize.toNat * queueSize.toNat % 2 ^ 32
  let slot := allocated / itemSize.toNat
  have hallocated : allocated < 2 ^ 32 := Nat.mod_lt _ (by decide)
  have hstarts : slot * itemSize.toNat ≤ allocated := Nat.div_mul_le_self _ _
  have hends : allocated < slot * itemSize.toNat + itemSize.toNat := Nat.lt_div_mul_add hsize
  have hslot : slot < queueSize.toNat := by
    by_contra hge
    have hle := Nat.mul_le_mul_left itemSize.toNat (Nat.le_of_not_lt hge)
    rw [Nat.mul_comm itemSize.toNat slot] at hle
    omega
  obtain ⟨s, hrun, hsent⟩ := run_sends itemSize (fun _ => 0) slot hslot
  have hne : s.queue.queueSize ≠ 0 := by
    rw [hsent.queueSize]
    intro hzero
    rw [hzero] at hslot
    exact absurd hslot (Nat.not_lt_zero _)
  have hwithin := (h _ _ _ s hrun).tail hne
  have hoffset : slot * itemSize.toNat < 2 ^ 32 := Nat.lt_of_le_of_lt hstarts hallocated
  rw [QueueT.SlotWithin, QueueT.allocated, hsent.itemSize, hsent.queueSize, UInt32.toNat_mul,
    UInt32.toNat_mul, hsent.tail, Nat.mod_eq_of_lt hoffset] at hwithin
  exact absurd hwithin (Nat.not_le.mpr hends)

/-- A queue of 65536 items of 65537 bytes has a buffer of 65536 bytes, too small for one item. -/
theorem slots_wrap : ¬ ∀ itemSize queueSize fresh threads actions s,
    Runs.run queueStep (.start itemSize queueSize fresh threads) actions = some s →
      s.queue.SlotsSafe := by
  intro h
  have hsafe := h 65537 65536 (fun _ => 0) 1 [] _ rfl
  exact absurd (hsafe.tail (by decide)) (by unfold QueueT.SlotWithin; decide)

end MlinkDevice
