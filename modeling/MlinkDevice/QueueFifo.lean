import MlinkDevice.QueueThreads

/-!
# The queue is first in, first out

Whatever the threads do, the ring holds what was sent since the last reset and not received
yet, in the order of the sends.
-/

namespace MlinkDevice

/-! ## The invariant -/

/-- A failed receive changes neither the queue nor the caller's buffer. -/
def RecvReturn.Harmless (r : RecvReturn) : Prop :=
  r.result = -1 → r.after = r.before ∧ r.got = r.given

/-- A thread that waits to send has an item to copy. -/
def QueueThread.Fits (size : ℕ) : QueueThread → Prop
  | .sending buffer _ => size ≤ buffer.length
  | _ => True

theorem QueueThread.Fits.become {size : ℕ} {t : QueueThread} (h : t.Fits size)
    (status : WaitStatus) : (t.become status).Fits size := by
  cases t with
  | sending => exact h
  | _ => trivial

structure QueueSystem.InOrder (s : QueueSystem) : Prop where
  valid : s.queue.Valid
  sent : s.sent = s.received ++ s.queue.contents
  threads : ∀ t ∈ s.threads, t.Fits s.queue.itemSize.toNat
  returns : ∀ r ∈ s.returns, r.Harmless

theorem start_inOrder {itemSize queueSize : UInt32} (hsize : 1 ≤ queueSize.toNat)
    (hfits : itemSize.toNat * queueSize.toNat < 2 ^ 32) (fresh : ℕ → UInt8) (threads : ℕ) :
    (QueueSystem.start itemSize queueSize fresh threads).InOrder where
  valid := queueCreate_valid hsize hfits fresh
  sent := rfl
  threads t ht := by
    obtain rfl := List.eq_of_mem_replicate ht
    trivial
  returns _ h := absurd h List.not_mem_nil

/-! ## Steps -/

section Steps

variable {s t : QueueSystem} {thread : ℕ} {buffer : List UInt8} {chosen : List Bool}

theorem QueueSystem.InOrder.sendPass (h : s.InOrder)
    (hbuffer : s.queue.itemSize.toNat ≤ buffer.length)
    (hstep : s.sendPass thread buffer chosen = some t) : t.InOrder := by
  rcases sendPass_cases hstep with ⟨-, rfl⟩ | ⟨queue, hsend, -, rfl⟩
  · exact ⟨h.valid, h.sent, Threads.forall_mem_set h.threads thread hbuffer, h.returns⟩
  · obtain ⟨hvalid, hcontents⟩ := h.valid.send hbuffer hsend
    obtain ⟨-, -, -, hsame⟩ := queueSend_some h.valid.count_le hsend
    refine ⟨hvalid, ?_, ?_, h.returns⟩
    · dsimp only
      rw [hcontents, h.sent, List.append_assoc]
    · dsimp only
      rw [hsame]
      exact CondVar.forall_signal (fun _ ht => ht.become _) _
        (Threads.forall_mem_set h.threads thread trivial)

theorem QueueSystem.InOrder.recvPass (h : s.InOrder) {timeoutMs : Int32} {timedOut : Bool}
    (hstep : s.recvPass thread buffer timeoutMs timedOut chosen = some t) : t.InOrder := by
  have hthreads := Threads.forall_mem_set h.threads thread (b := .idle) trivial
  rcases recvPass_cases hstep with ⟨-, rfl⟩ | ⟨-, rfl⟩ | ⟨got, queue, hrecv, -, rfl⟩
  · exact ⟨h.valid, h.sent, Threads.forall_mem_set h.threads thread trivial, h.returns⟩
  · refine ⟨h.valid, h.sent, hthreads, List.forall_mem_append.mpr ⟨h.returns, ?_⟩⟩
    exact List.forall_mem_singleton.mpr fun _ => ⟨rfl, rfl⟩
  · obtain ⟨hvalid, hcontents⟩ := h.valid.recv hrecv
    obtain ⟨-, -, hsame⟩ := queueRecv_taken hrecv
    refine ⟨hvalid, ?_, ?_, List.forall_mem_append.mpr ⟨h.returns, ?_⟩⟩
    · dsimp only
      rw [h.sent, hcontents, List.append_assoc, List.singleton_append]
    · dsimp only
      rw [hsame]
      exact CondVar.forall_signal (fun _ ht => ht.become _) _ hthreads
    · exact List.forall_mem_singleton.mpr fun hfails =>
        absurd (show (0 : Int32) = -1 from hfails) (by decide)

theorem QueueThread.MaySend.fits {size : ℕ} {u : QueueThread} (h : u.MaySend size buffer)
    (hu : u.Fits size) : size ≤ buffer.length := by
  rcases h with ⟨-, hbuffer⟩ | ⟨status, -, rfl⟩
  · exact hbuffer
  · exact hu

/-- **Step.** Every step keeps the items in order. -/
theorem queueStep_inOrder (s : QueueSystem) (a : QueueAction) (t : QueueSystem) (h : s.InOrder)
    (hstep : queueStep s a = some t) : t.InOrder := by
  rcases queueStep_cases hstep with ⟨thread, buffer, chosen, u, hu, hsend, hpass⟩ |
    ⟨thread, buffer, timeoutMs, timedOut, chosen, u, -, -, hpass⟩ |
    ⟨thread, u, status, hu, -, -, -, rfl⟩ | rfl
  · exact h.sendPass (hsend.fits (h.threads u (List.mem_of_getElem? hu))) hpass
  · exact h.recvPass hpass
  · have hfits := (h.threads u (List.mem_of_getElem? hu)).become status
    exact ⟨h.valid, h.sent, Threads.forall_mem_set h.threads thread hfits, h.returns⟩
  · obtain ⟨hvalid, hcontents⟩ := queueReset_spec h.valid
    refine ⟨hvalid, hcontents.symm, ?_, h.returns⟩
    exact CondVar.forall_broadcast (fun _ ht => ht.become _)
      (CondVar.forall_broadcast (fun _ ht => ht.become _) h.threads)

end Steps

/-! ## Any run -/

/-- In every reachable state the indices are within the ring and the ring holds, in order, the
items sent since the last reset and not received. A receive that failed has changed nothing. -/
theorem queue_fifo {itemSize queueSize : UInt32} (hsize : 1 ≤ queueSize.toNat)
    (hfits : itemSize.toNat * queueSize.toNat < 2 ^ 32) (fresh : ℕ → UInt8) (threads : ℕ)
    (actions : List QueueAction) (s : QueueSystem)
    (hrun : Runs.run queueStep (.start itemSize queueSize fresh threads) actions = some s) :
    s.queue.count.toNat ≤ s.queue.queueSize.toNat ∧
      s.queue.head.toNat < s.queue.queueSize.toNat ∧
      s.queue.tail.toNat = (s.queue.head.toNat + s.queue.count.toNat) % s.queue.queueSize.toNat ∧
      s.sent = s.received ++ s.queue.contents ∧
      ∀ r ∈ s.returns, r.result = -1 → r.after = r.before ∧ r.got = r.given := by
  have h : s.InOrder := Runs.run_invariant QueueSystem.InOrder
    (fun s a t hs _ => queueStep_inOrder s a t hs) (start_inOrder hsize hfits fresh threads)
    (Runs.along_true _ actions) hrun
  exact ⟨h.valid.count_le, h.valid.head_lt, h.valid.tail_eq, h.sent, h.returns⟩

/-- The third send waits for a slot, and its item goes to the start of the buffer. -/
theorem queue_fifo_wraps : ∃ s, Runs.run queueStep (.start 1 2 (fun _ => 0) 2)
      [.send 0 [7] [], .send 0 [8] [], .send 1 [9] [], .recv 0 [0] 0 [false, true], .resume 1 []] =
        some s ∧
    s.queue.contents = [[8], [9]] ∧ s.queue.tail.toNat = 1 ∧
    s.sent = s.received ++ s.queue.contents := by
  obtain ⟨-, -, -, hsent, -⟩ := @queue_fifo 1 2 (by decide) (by decide) (fun _ => 0) 2
    [.send 0 [7] [], .send 0 [8] [], .send 1 [9] [], .recv 0 [0] 0 [false, true], .resume 1 []] _ rfl
  exact ⟨_, rfl, rfl, rfl, hsent⟩

end MlinkDevice
