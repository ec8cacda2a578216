import MlinkDevice.QueueThreads

/-!
# No wake-up is lost

The queue signals one waiter for each item and each free slot, and a thread that was not
waiting may take it first. No thread sleeps while more is there than signalled threads come
back for.
-/

namespace MlinkDevice

/-! ## Both condition variables -/

namespace QueueThread

variable {t : QueueThread} {buffer : List UInt8} {size : ℕ} {status : WaitStatus}

theorem MaySend.not_waiting (h : t.MaySend size buffer) :
    condNotFull.asleep t = false ∧ condNotEmpty.signalled t = false := by
  rcases h with ⟨rfl, -⟩ | ⟨status, hawake, rfl⟩
  · exact ⟨rfl, rfl⟩
  · exact ⟨decide_eq_false hawake, rfl⟩

theorem MayRecv.not_waiting (h : t.MayRecv) :
    condNotEmpty.asleep t = false ∧ condNotFull.signalled t = false := by
  rcases h with rfl | ⟨buffer, timeoutMs, status, hawake, rfl⟩
  · exact ⟨rfl, rfl⟩
  · exact ⟨decide_eq_false hawake, rfl⟩

theorem Sleeps.not_signalled (h : t.Sleeps) :
    condNotEmpty.signalled t = false ∧ condNotFull.signalled t = false := by
  rcases h with hsends | hreceives
  · cases t with
    | sending => exact ⟨rfl, condNotFull.signalled_of_asleep _ hsends⟩
    | _ => exact absurd hsends Bool.false_ne_true
  · cases t with
    | receiving => exact ⟨condNotEmpty.signalled_of_asleep _ hreceives, rfl⟩
    | _ => exact absurd hreceives Bool.false_ne_true

theorem not_asleep_become (h : status ≠ .asleep) (t : QueueThread) :
    condNotEmpty.asleep (t.become status) = false ∧ condNotFull.asleep (t.become status) = false := by
  cases t with
  | idle => exact ⟨rfl, rfl⟩
  | sending => exact ⟨rfl, decide_eq_false h⟩
  | receiving => exact ⟨decide_eq_false h, rfl⟩

theorem wake_condNotEmpty (h : condNotEmpty.asleep t = true) :
    condNotFull.asleep (condNotEmpty.wake t) = condNotFull.asleep t ∧
      condNotFull.signalled (condNotEmpty.wake t) = condNotFull.signalled t := by
  cases t with
  | receiving => exact ⟨rfl, rfl⟩
  | _ => exact absurd h Bool.false_ne_true

theorem wake_condNotFull (h : condNotFull.asleep t = true) :
    condNotEmpty.asleep (condNotFull.wake t) = condNotEmpty.asleep t ∧
      condNotEmpty.signalled (condNotFull.wake t) = condNotEmpty.signalled t := by
  cases t with
  | sending => exact ⟨rfl, rfl⟩
  | _ => exact absurd h Bool.false_ne_true

end QueueThread

theorem countP_signalled {threads : List QueueThread} (h : ∀ t ∈ threads, t = .idle ∨ t.Sleeps) :
    threads.countP condNotEmpty.signalled = 0 ∧ threads.countP condNotFull.signalled = 0 := by
  constructor <;> refine List.countP_eq_zero.mpr fun t ht => Bool.eq_false_iff.mp ?_ <;>
    rcases h t ht with rfl | hsleeps
  · rfl
  · exact hsleeps.not_signalled.1
  · rfl
  · exact hsleeps.not_signalled.2

/-! ## The invariant -/

/-- The items are served to the receivers and the free slots to the senders. -/
structure QueueSystem.Served (s : QueueSystem) : Prop where
  count_le : s.queue.count.toNat ≤ s.queue.queueSize.toNat
  items : condNotEmpty.Served s.queue.count.toNat s.threads
  slots : condNotFull.Served (s.queue.queueSize.toNat - s.queue.count.toNat) s.threads

theorem start_served (itemSize queueSize : UInt32) (fresh : ℕ → UInt8) (threads : ℕ) :
    (QueueSystem.start itemSize queueSize fresh threads).Served where
  count_le := Nat.zero_le _
  items := CondVar.served_zero _ _
  slots h := by
    obtain ⟨t, ht, hasleep⟩ := List.countP_pos_iff.mp h
    obtain rfl := List.eq_of_mem_replicate ht
    exact absurd hasleep Bool.false_ne_true

section Steps

variable {s t : QueueSystem} {u : QueueThread} {thread : ℕ} {buffer : List UInt8}
  {chosen : List Bool}

theorem QueueSystem.Served.sendPass (h : s.Served) (hu : s.threads[thread]? = some u)
    (hsend : u.MaySend s.queue.itemSize.toNat buffer)
    (hstep : s.sendPass thread buffer chosen = some t) : t.Served := by
  obtain ⟨hawake, hother⟩ := hsend.not_waiting
  rcases sendPass_cases hstep with ⟨hpass, rfl⟩ | ⟨queue, hpass, hwakes, rfl⟩
  · have hfull : s.queue.queueSize.toNat - s.queue.count.toNat = 0 := by
      rw [queueSend_none hpass, Nat.sub_self]
    refine ⟨h.count_le, h.items.leave hu hother rfl, ?_⟩
    dsimp only
    rw [hfull]
    exact CondVar.served_zero _ _
  · obtain ⟨hroom, hcount, hsize, -⟩ := queueSend_some h.count_le hpass
    have hslots := h.slots
    rw [show s.queue.queueSize.toNat - s.queue.count.toNat =
      queue.queueSize.toNat - queue.count.toNat + 1 by rw [hsize]; omega] at hslots
    refine ⟨?_, ?_, ?_⟩
    · dsimp only
      rw [hcount, hsize]
      exact hroom
    · dsimp only
      rw [hcount]
      exact (h.items.leave hu hother rfl).signal hwakes
    · exact (hslots.take hu hawake rfl).signal_other (fun _ => QueueThread.wake_condNotEmpty) chosen

theorem QueueSystem.Served.recvPass (h : s.Served) (hu : s.threads[thread]? = some u)
    (hrecv : u.MayRecv) {timeoutMs : Int32} {timedOut : Bool}
    (hstep : s.recvPass thread buffer timeoutMs timedOut chosen = some t) : t.Served := by
  obtain ⟨hawake, hother⟩ := hrecv.not_waiting
  have hcountle := h.count_le
  have hempty (h0 : s.queue.count = 0) (threads : List QueueThread) :
      condNotEmpty.Served s.queue.count.toNat threads := by
    rw [h0]
    exact CondVar.served_zero _ _
  rcases recvPass_cases hstep with ⟨h0, rfl⟩ | ⟨h0, rfl⟩ | ⟨got, queue, hpass, hwakes, rfl⟩
  · exact ⟨h.count_le, hempty h0 _, h.slots.leave hu hother rfl⟩
  · exact ⟨h.count_le, hempty h0 _, h.slots.leave hu hother rfl⟩
  · obtain ⟨hcount, hsize, -⟩ := queueRecv_taken hpass
    have hitems := h.items
    rw [← hcount] at hitems
    refine ⟨?_, ?_, ?_⟩
    · dsimp only
      rw [hsize]
      omega
    · exact (hitems.take hu hawake rfl).signal_other (fun _ => QueueThread.wake_condNotFull) chosen
    · dsimp only
      rw [show queue.queueSize.toNat - queue.count.toNat =
        s.queue.queueSize.toNat - s.queue.count.toNat + 1 by rw [hsize]; omega]
      exact (h.slots.leave hu hother rfl).signal hwakes

/-- **Step.** Every step keeps the items and the free slots served. -/
theorem queueStep_served (s : QueueSystem) (a : QueueAction) (t : QueueSystem) (h : s.Served)
    (hstep : queueStep s a = some t) : t.Served := by
  rcases queueStep_cases hstep with ⟨thread, buffer, chosen, u, hu, hsend, hpass⟩ |
    ⟨thread, buffer, timeoutMs, timedOut, chosen, u, hu, hrecv, hpass⟩ |
    ⟨thread, u, status, hu, hsleeps, hawake, -, rfl⟩ | rfl
  · exact h.sendPass hu hsend hpass
  · exact h.recvPass hu hrecv hpass
  · obtain ⟨hitems, hslots⟩ := hsleeps.not_signalled
    obtain ⟨hreceiver, hsender⟩ := QueueThread.not_asleep_become hawake u
    exact ⟨h.count_le, h.items.leave hu hitems hreceiver, h.slots.leave hu hslots hsender⟩
  · -- The reset leaves no item, and nobody who waits for a slot.
    exact ⟨Nat.zero_le _, CondVar.served_zero _ _, CondVar.served_broadcast _ _ _⟩

end Steps

/-! ## Any run -/

/-- In every reachable state, a receiver that sleeps unsignalled leaves at most as many items as
signalled receivers come back for, and a sender as many free slots. When nobody comes back, it
sleeps on an empty queue, and the sender on a full one. -/
theorem no_lost_wakeup (itemSize queueSize : UInt32) (fresh : ℕ → UInt8) (threads : ℕ)
    (actions : List QueueAction) (s : QueueSystem)
    (hrun : Runs.run queueStep (.start itemSize queueSize fresh threads) actions = some s) :
    ((∃ t ∈ s.threads, t.receiverIs .asleep) →
      s.queue.count.toNat ≤ s.threads.countP (·.receiverIs .signalled)) ∧
    ((∃ t ∈ s.threads, t.senderIs .asleep) →
      s.queue.queueSize.toNat - s.queue.count.toNat ≤ s.threads.countP (·.senderIs .signalled)) ∧
    ((∀ t ∈ s.threads, t = .idle ∨ t.Sleeps) →
      ((∃ t ∈ s.threads, t.receiverIs .asleep) → s.queue.count = 0) ∧
      ((∃ t ∈ s.threads, t.senderIs .asleep) → s.queue.count = s.queue.queueSize)) := by
  have h : s.Served := Runs.run_invariant QueueSystem.Served
    (fun s a t hs _ => queueStep_served s a t hs) (start_served itemSize queueSize fresh threads)
    (Runs.along_true _ actions) hrun
  have hitems (hasleep : ∃ t ∈ s.threads, t.receiverIs .asleep) :
      s.queue.count.toNat ≤ s.threads.countP (·.receiverIs .signalled) :=
    h.items (List.countP_pos_iff.mpr hasleep)
  have hslots (hasleep : ∃ t ∈ s.threads, t.senderIs .asleep) :
      s.queue.queueSize.toNat - s.queue.count.toNat ≤ s.threads.countP (·.senderIs .signalled) :=
    h.slots (List.countP_pos_iff.mpr hasleep)
  refine ⟨hitems, hslots, fun hall => ⟨fun hasleep => ?_, fun hasleep => ?_⟩⟩
  · have hle := (countP_signalled hall).1 ▸ hitems hasleep
    exact UInt32.toNat_inj.mp (Nat.le_zero.mp hle)
  · have hle := (countP_signalled hall).2 ▸ hslots hasleep
    exact UInt32.toNat_inj.mp (Nat.le_antisymm h.count_le (Nat.sub_eq_zero_iff_le.mp
      (Nat.le_zero.mp hle)))

/-- One item, one receiver signalled for it, and one that sleeps on. -/
theorem no_lost_wakeup_two : ∃ s, Runs.run queueStep (.start 1 2 (fun _ => 0) 3)
      [.recv 0 [0] (-1) [], .recv 1 [0] 5 [], .send 2 [7] [true]] = some s ∧
    (∃ t ∈ s.threads, t.receiverIs .asleep) ∧ s.queue.count.toNat = 1 ∧
    s.queue.count.toNat ≤ s.threads.countP (·.receiverIs .signalled) := by
  obtain ⟨hitems, -⟩ := no_lost_wakeup 1 2 (fun _ => 0) 3
    [.recv 0 [0] (-1) [], .recv 1 [0] 5 [], .send 2 [7] [true]] _ rfl
  have hasleep := List.mem_cons_of_mem (.receiving [0] (-1) .signalled)
    (List.mem_cons_self (a := QueueThread.receiving [0] 5 .asleep) (l := [.idle]))
  exact ⟨_, rfl, ⟨_, hasleep, rfl⟩, rfl, hitems ⟨_, hasleep, rfl⟩⟩

end MlinkDevice
