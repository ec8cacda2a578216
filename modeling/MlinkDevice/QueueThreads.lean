import MlinkDevice.Queue

/-!
# Threads on a bounded queue

Any number of threads in `queue_send`, `queue_recv` and `queue_reset`. A thread that waits may
be signalled, wake up on its own or time out, and goes on when it has the mutex again.
-/

namespace MlinkDevice

/-! ## Threads -/

inductive WaitStatus where
  | asleep
  | signalled
  | spurious
  | timedOut
deriving DecidableEq

/-- What a thread is doing between its sections. -/
inductive QueueThread where
  | idle
  | sending (buffer : List UInt8) (status : WaitStatus)
  | receiving (buffer : List UInt8) (timeoutMs : Int32) (status : WaitStatus)
deriving DecidableEq

namespace QueueThread

def senderIs (status : WaitStatus) : QueueThread → Bool
  | .sending _ current => current = status
  | _ => false

def receiverIs (status : WaitStatus) : QueueThread → Bool
  | .receiving _ _ current => current = status
  | _ => false

/-- The thread waits, and with that status from now on. -/
def become (status : WaitStatus) : QueueThread → QueueThread
  | .idle => .idle
  | .sending buffer _ => .sending buffer status
  | .receiving buffer timeoutMs _ => .receiving buffer timeoutMs status

end QueueThread

def condNotFull : CondVar QueueThread where
  asleep := QueueThread.senderIs .asleep
  signalled := QueueThread.senderIs .signalled
  wake := QueueThread.become .signalled
  signalled_of_asleep t h := by
    cases t with
    | sending buffer status =>
      obtain rfl : status = .asleep := of_decide_eq_true h
      rfl
    | _ => rfl
  asleep_wake t _ := by cases t <;> rfl
  signalled_wake t h := by
    cases t with
    | sending => rfl
    | _ => exact absurd h Bool.false_ne_true

def condNotEmpty : CondVar QueueThread where
  asleep := QueueThread.receiverIs .asleep
  signalled := QueueThread.receiverIs .signalled
  wake := QueueThread.become .signalled
  signalled_of_asleep t h := by
    cases t with
    | receiving buffer timeoutMs status =>
      obtain rfl : status = .asleep := of_decide_eq_true h
      rfl
    | _ => rfl
  asleep_wake t _ := by cases t <;> rfl
  signalled_wake t h := by
    cases t with
    | receiving => rfl
    | _ => exact absurd h Bool.false_ne_true

/-! ## Steps -/

/-- A `queue_recv` that has returned: its result, the caller's buffer before and after it, and
the queue before and after its last section. -/
structure RecvReturn where
  result : Int32
  given : List UInt8
  got : List UInt8
  before : QueueT
  after : QueueT

/-- The queue and its threads, with the items sent and received since the last reset and the
returns of `queue_recv`. -/
structure QueueSystem where
  queue : QueueT
  threads : List QueueThread
  sent : List (List UInt8) := []
  received : List (List UInt8) := []
  returns : List RecvReturn := []

/-- A section that signals says in `chosen` which threads it wakes. -/
inductive QueueAction where
  | send (thread : ℕ) (buffer : List UInt8) (chosen : List Bool)
  | recv (thread : ℕ) (buffer : List UInt8) (timeoutMs : Int32) (chosen : List Bool)
  | spurious (thread : ℕ)
  | timeOut (thread : ℕ)
  | resume (thread : ℕ) (chosen : List Bool)
  | reset

/-- The section of a send ends in a wait, or in a signal and the return. -/
def QueueSystem.sendPass (s : QueueSystem) (thread : ℕ) (buffer : List UInt8)
    (chosen : List Bool) : Option QueueSystem :=
  match queueSend s.queue buffer with
  | none => some { s with threads := s.threads.set thread (.sending buffer .asleep) }
  | some queue =>
    let threads := s.threads.set thread .idle
    if condNotEmpty.Wakes chosen threads then
      some { s with
        queue
        threads := condNotEmpty.signal chosen threads
        sent := s.sent ++ [buffer.take s.queue.itemSize.toNat] }
    else none

def QueueSystem.recvPass (s : QueueSystem) (thread : ℕ) (buffer : List UInt8)
    (timeoutMs : Int32) (timedOut : Bool) (chosen : List Bool) : Option QueueSystem :=
  match queueRecv s.queue buffer timeoutMs timedOut with
  | none => some { s with threads := s.threads.set thread (.receiving buffer timeoutMs .asleep) }
  | some (result, got, queue) =>
    let threads := s.threads.set thread .idle
    let s' : QueueSystem := { s with
      queue
      returns := s.returns ++ [⟨result, buffer, got, s.queue, queue⟩] }
    if result ≠ 0 then some { s' with threads }
    else if condNotFull.Wakes chosen threads then
      some { s' with
        threads := condNotFull.signal chosen threads
        received := s.received ++ [got.take s.queue.itemSize.toNat] }
    else none

/-- A buffer that is passed has room for an item. -/
def queueStep (s : QueueSystem) : QueueAction → Option QueueSystem
  | .send thread buffer chosen =>
    if s.threads[thread]? = some .idle ∧ s.queue.itemSize.toNat ≤ buffer.length then
      s.sendPass thread buffer chosen
    else none
  | .recv thread buffer timeoutMs chosen =>
    if s.threads[thread]? = some .idle ∧ s.queue.itemSize.toNat ≤ buffer.length then
      s.recvPass thread buffer timeoutMs false chosen
    else none
  | .spurious thread =>
    match s.threads[thread]? with
    | some t =>
      if t.senderIs .asleep ∨ t.receiverIs .asleep then
        some { s with threads := s.threads.set thread (t.become .spurious) }
      else none
    | none => none
  | .timeOut thread =>
    match s.threads[thread]? with
    | some (.receiving buffer timeoutMs .asleep) =>
      if 0 < timeoutMs then
        some { s with threads := s.threads.set thread (.receiving buffer timeoutMs .timedOut) }
      else none
    | _ => none
  | .resume thread chosen =>
    match s.threads[thread]? with
    | some (.sending buffer status) =>
      if status = .asleep then none else s.sendPass thread buffer chosen
    | some (.receiving buffer timeoutMs status) =>
      if status = .asleep then none
      else s.recvPass thread buffer timeoutMs (status = .timedOut) chosen
    | _ => none
  | .reset => some { s with
      queue := queueReset s.queue
      threads := condNotFull.broadcast (condNotEmpty.broadcast s.threads)
      sent := []
      received := [] }

/-! ## What a step can do -/

section Passes

variable {s t : QueueSystem} {thread : ℕ} {buffer : List UInt8} {chosen : List Bool}

theorem sendPass_cases (h : s.sendPass thread buffer chosen = some t) :
    (queueSend s.queue buffer = none ∧
      t = { s with threads := s.threads.set thread (.sending buffer .asleep) }) ∨
    ∃ queue, queueSend s.queue buffer = some queue ∧
      condNotEmpty.Wakes chosen (s.threads.set thread .idle) ∧
      t = { s with
        queue
        threads := condNotEmpty.signal chosen (s.threads.set thread .idle)
        sent := s.sent ++ [buffer.take s.queue.itemSize.toNat] } := by
  unfold QueueSystem.sendPass at h
  cases hsend : queueSend s.queue buffer with
  | none =>
    rw [hsend] at h
    exact .inl ⟨rfl, (Option.some.inj h).symm⟩
  | some queue =>
    rw [hsend] at h
    obtain ⟨hwakes, h⟩ := Option.ite_none_right_eq_some.mp h
    exact .inr ⟨queue, rfl, hwakes, (Option.some.inj h).symm⟩

theorem recvPass_cases {timeoutMs : Int32} {timedOut : Bool}
    (h : s.recvPass thread buffer timeoutMs timedOut chosen = some t) :
    (s.queue.count = 0 ∧
      t = { s with threads := s.threads.set thread (.receiving buffer timeoutMs .asleep) }) ∨
    (s.queue.count = 0 ∧ t = { s with
      threads := s.threads.set thread .idle
      returns := s.returns ++ [⟨-1, buffer, buffer, s.queue, s.queue⟩] }) ∨
    ∃ got queue, queueRecv s.queue buffer timeoutMs timedOut = some (0, got, queue) ∧
      condNotFull.Wakes chosen (s.threads.set thread .idle) ∧
      t = { s with
        queue
        threads := condNotFull.signal chosen (s.threads.set thread .idle)
        received := s.received ++ [got.take s.queue.itemSize.toNat]
        returns := s.returns ++ [⟨0, buffer, got, s.queue, queue⟩] } := by
  unfold QueueSystem.recvPass at h
  cases hrecv : queueRecv s.queue buffer timeoutMs timedOut with
  | none =>
    rw [hrecv] at h
    exact .inl ⟨queueRecv_none hrecv, (Option.some.inj h).symm⟩
  | some returned =>
    obtain ⟨result, got, queue⟩ := returned
    rw [hrecv] at h
    rcases queueRecv_some hrecv with ⟨rfl, hempty, rfl, rfl⟩ | ⟨rfl, -⟩
    · exact .inr (.inl ⟨hempty, (Option.some.inj h).symm⟩)
    · obtain ⟨hwakes, h⟩ := Option.ite_none_right_eq_some.mp h
      exact .inr (.inr ⟨got, queue, rfl, hwakes, (Option.some.inj h).symm⟩)

end Passes

/-- A thread that has the mutex and is about to send: it calls, or comes back from its wait. -/
def QueueThread.MaySend (size : ℕ) (buffer : List UInt8) (t : QueueThread) : Prop :=
  (t = .idle ∧ size ≤ buffer.length) ∨ ∃ status, status ≠ .asleep ∧ t = .sending buffer status

def QueueThread.MayRecv (t : QueueThread) : Prop :=
  t = .idle ∨ ∃ buffer timeoutMs status, status ≠ .asleep ∧ t = .receiving buffer timeoutMs status

/-- A sleeper that wakes up without a signal. -/
def QueueThread.Sleeps (t : QueueThread) : Prop :=
  t.senderIs .asleep = true ∨ t.receiverIs .asleep = true

theorem queueStep_cases {s t : QueueSystem} {a : QueueAction} (h : queueStep s a = some t) :
    (∃ thread buffer chosen u, s.threads[thread]? = some u ∧
      u.MaySend s.queue.itemSize.toNat buffer ∧ s.sendPass thread buffer chosen = some t) ∨
    (∃ thread buffer timeoutMs timedOut chosen u, s.threads[thread]? = some u ∧ u.MayRecv ∧
      s.recvPass thread buffer timeoutMs timedOut chosen = some t) ∨
    (∃ thread u status, s.threads[thread]? = some u ∧ u.Sleeps ∧ status ≠ .asleep ∧
      status ≠ .signalled ∧ t = { s with threads := s.threads.set thread (u.become status) }) ∨
    t = { s with
      queue := queueReset s.queue
      threads := condNotFull.broadcast (condNotEmpty.broadcast s.threads)
      sent := []
      received := [] } := by
  cases a with
  | send thread buffer chosen =>
    obtain ⟨⟨hidle, hbuffer⟩, hpass⟩ := Option.ite_none_right_eq_some.mp h
    exact .inl ⟨thread, buffer, chosen, .idle, hidle, .inl ⟨rfl, hbuffer⟩, hpass⟩
  | recv thread buffer timeoutMs chosen =>
    obtain ⟨⟨hidle, -⟩, hpass⟩ := Option.ite_none_right_eq_some.mp h
    exact .inr (.inl ⟨thread, buffer, timeoutMs, false, chosen, .idle, hidle, .inl rfl, hpass⟩)
  | spurious thread =>
    simp only [queueStep] at h
    split at h
    case h_1 u hu =>
      obtain ⟨hsleeps, h⟩ := Option.ite_none_right_eq_some.mp h
      obtain rfl := Option.some.inj h
      exact .inr (.inr (.inl ⟨thread, u, .spurious, hu, hsleeps, by decide, by decide, rfl⟩))
    case h_2 => exact absurd h.symm (Option.some_ne_none t)
  | timeOut thread =>
    simp only [queueStep] at h
    split at h
    case h_1 buffer timeoutMs hu =>
      obtain ⟨-, h⟩ := Option.ite_none_right_eq_some.mp h
      obtain rfl := Option.some.inj h
      exact .inr (.inr (.inl ⟨thread, _, .timedOut, hu, .inr rfl, by decide, by decide, rfl⟩))
    case h_2 => exact absurd h.symm (Option.some_ne_none t)
  | resume thread chosen =>
    simp only [queueStep] at h
    split at h
    case h_1 buffer status hu =>
      obtain ⟨hawake, hpass⟩ := Option.ite_none_left_eq_some.mp h
      exact .inl ⟨thread, buffer, chosen, _, hu, .inr ⟨status, hawake, rfl⟩, hpass⟩
    case h_2 buffer timeoutMs status hu =>
      obtain ⟨hawake, hpass⟩ := Option.ite_none_left_eq_some.mp h
      exact .inr (.inl ⟨thread, buffer, timeoutMs, _, chosen, _, hu,
        .inr ⟨buffer, timeoutMs, status, hawake, rfl⟩, hpass⟩)
    case h_3 => exact absurd h.symm (Option.some_ne_none t)
  | reset =>
    obtain rfl := Option.some.inj h
    exact .inr (.inr (.inr rfl))

/-- A queue that was just created, and that many threads. -/
def QueueSystem.start (itemSize queueSize : UInt32) (fresh : ℕ → UInt8) (threads : ℕ) :
    QueueSystem where
  queue := queueCreate itemSize queueSize fresh
  threads := List.replicate threads .idle

end MlinkDevice
