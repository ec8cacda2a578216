import MlinkDevice.Deadlines
import MlinkDevice.EventGroup
import MlinkDevice.QueueThreads

/-!
# Waiting for events

The threads in `event_group_wait` with the condition variable and the clock that they wait on. A
set wakes all of them. A wait can time out at its deadline, which the call reads off the clock
before it takes the mutex.
-/

namespace MlinkDevice

/-! ## Threads -/

/-- A call of `event_group_wait`, with the time at which it began. -/
structure EventCall where
  wait : EventWait
  begun : Timespec
  timeout : Timespec

/-- `entering` is before the first pass of the loop. -/
inductive EventThread where
  | idle
  | entering (call : EventCall)
  | waiting (call : EventCall) (status : WaitStatus)

namespace EventThread

def waits (status : WaitStatus) : EventThread → Bool
  | .waiting _ current => current = status
  | _ => false

def become (status : WaitStatus) : EventThread → EventThread
  | .waiting call _ => .waiting call status
  | t => t

end EventThread

def condEvents : CondVar EventThread where
  asleep := EventThread.waits .asleep
  signalled := EventThread.waits .signalled
  wake := EventThread.become .signalled
  signalled_of_asleep t h := by
    cases t with
    | waiting call status =>
      obtain rfl : status = .asleep := of_decide_eq_true h
      rfl
    | _ => rfl
  asleep_wake t _ := by cases t <;> rfl
  signalled_wake t h := by
    cases t with
    | waiting => rfl
    | _ => exact absurd h Bool.false_ne_true

/-! ## Steps -/

/-- A return, with the bits before and after its last section and the time of it. -/
structure TimedReturn where
  call : EventCall
  value : BitVec 8
  before : BitVec 8
  after : BitVec 8
  time : Timespec
  timedOut : Bool

structure EventWaits where
  group : EventGroup := eventGroupCreate
  clock : Timespec
  threads : List EventThread
  sets : List (BitVec 8) := []
  returns : List TimedReturn := []

/-- `pass` is a section of a thread that has the mutex. -/
inductive EventWaitAction where
  | tick (clock : Timespec)
  | set (eventBit : BitVec 8)
  | clear (eventBit : BitVec 8)
  | enter (thread : ℕ) (w : EventWait)
  | pass (thread : ℕ)
  | spurious (thread : ℕ)
  | timeOut (thread : ℕ)

def EventWaits.pass (s : EventWaits) (thread : ℕ) (call : EventCall) : EventWaits :=
  match eventGroupWait s.group call.wait with
  | (some value, group) => { s with
      group
      threads := s.threads.set thread .idle
      returns := s.returns ++ [⟨call, value, s.group.bits, group.bits, s.clock, false⟩] }
  | (none, group) => { s with group, threads := s.threads.set thread (.waiting call .asleep) }

def EventWaits.expire (s : EventWaits) (thread : ℕ) (call : EventCall) : EventWaits :=
  let value := eventGroupTimedOut s.group call.wait
  { s with
    threads := s.threads.set thread .idle
    returns := s.returns ++ [⟨call, value, s.group.bits, s.group.bits, s.clock, true⟩] }

/-- The clock is not set back. -/
def eventWaitStep (s : EventWaits) : EventWaitAction → Option EventWaits
  | .tick clock => if clock.Normal ∧ s.clock.ns ≤ clock.ns then some { s with clock } else none
  | .set eventBit => some { s with
      group := eventGroupSetBit s.group eventBit
      threads := condEvents.broadcast s.threads
      sets := s.sets ++ [eventBit] }
  | .clear eventBit => some { s with group := eventGroupClearBit s.group eventBit }
  | .enter thread w =>
    match s.threads[thread]? with
    | some .idle => some { s with
        threads := s.threads.set thread
          (.entering ⟨w, s.clock, eventGroupTimeout s.clock w.timeoutMs⟩) }
    | _ => none
  | .pass thread =>
    match s.threads[thread]? with
    | some (.entering call) => some (s.pass thread call)
    | some (.waiting _ .asleep) => none
    | some (.waiting call .timedOut) => some (s.expire thread call)
    | some (.waiting call _) => some (s.pass thread call)
    | _ => none
  | .spurious thread =>
    match s.threads[thread]? with
    | some (.waiting call .asleep) =>
      some { s with threads := s.threads.set thread (.waiting call .spurious) }
    | _ => none
  | .timeOut thread =>
    match s.threads[thread]? with
    | some (.waiting call .asleep) =>
      if call.timeout.ns ≤ s.clock.ns then
        some { s with threads := s.threads.set thread (.waiting call .timedOut) }
      else none
    | _ => none

def EventWaits.start (clock : Timespec) (threads : ℕ) : EventWaits where
  clock
  threads := List.replicate threads .idle

/-! ## What a step can do -/

/-- The thread is about to take a pass: it has just called, or comes back from its wait. -/
def EventThread.MayPass (call : EventCall) (u : EventThread) : Prop :=
  u = .entering call ∨ ∃ status, status ≠ .asleep ∧ status ≠ .timedOut ∧ u = .waiting call status

/-- A sleeper wakes on its own, or at its deadline. -/
structure EventCall.Rises (call : EventCall) (clock : Timespec) (status : WaitStatus) : Prop where
  awake : status ≠ .asleep
  late : status = .timedOut → call.timeout.ns ≤ clock.ns

inductive EventWaitStep (s t : EventWaits) : Prop where
  | tick (clock : Timespec) (normal : clock.Normal) (later : s.clock.ns ≤ clock.ns)
    (eq : t = { s with clock })
  | set (eventBit : BitVec 8) (eq : t = { s with
      group := eventGroupSetBit s.group eventBit
      threads := condEvents.broadcast s.threads
      sets := s.sets ++ [eventBit] })
  | clear (eventBit : BitVec 8) (eq : t = { s with group := eventGroupClearBit s.group eventBit })
  | enter {thread : ℕ} (idle : s.threads[thread]? = some .idle) (w : EventWait)
    (eq : t = { s with
      threads := s.threads.set thread
        (.entering ⟨w, s.clock, eventGroupTimeout s.clock w.timeoutMs⟩) })
  | pass {thread : ℕ} {u : EventThread} {call : EventCall} (calls : s.threads[thread]? = some u)
    (mayPass : u.MayPass call) (eq : t = s.pass thread call)
  | expire {thread : ℕ} {call : EventCall}
    (timedOut : s.threads[thread]? = some (.waiting call .timedOut)) (eq : t = s.expire thread call)
  | rise {thread : ℕ} {call : EventCall} {status : WaitStatus}
    (asleep : s.threads[thread]? = some (.waiting call .asleep)) (rises : call.Rises s.clock status)
    (eq : t = { s with threads := s.threads.set thread (.waiting call status) })

theorem eventWaitStep_cases {s t : EventWaits} {a : EventWaitAction} (h : eventWaitStep s a = some t) :
    EventWaitStep s t := by
  cases a with
  | tick clock =>
    obtain ⟨⟨hnormal, hlater⟩, h⟩ := Option.ite_none_right_eq_some.mp h
    exact .tick clock hnormal hlater (Option.some.inj h).symm
  | set eventBit => exact .set eventBit (Option.some.inj h).symm
  | clear eventBit => exact .clear eventBit (Option.some.inj h).symm
  | enter thread w =>
    simp only [eventWaitStep] at h
    split at h
    case h_1 hidle => exact .enter hidle w (Option.some.inj h).symm
    case h_2 => exact absurd h.symm (Option.some_ne_none t)
  | pass thread =>
    simp only [eventWaitStep] at h
    split at h
    case h_1 call hcall => exact .pass hcall (.inl rfl) (Option.some.inj h).symm
    case h_2 => exact absurd h.symm (Option.some_ne_none t)
    case h_3 call hcall => exact .expire hcall (Option.some.inj h).symm
    case h_4 call status hawake hinTime hcall =>
      exact .pass hcall (.inr ⟨status, hawake, hinTime, rfl⟩) (Option.some.inj h).symm
    case h_5 => exact absurd h.symm (Option.some_ne_none t)
  | spurious thread =>
    simp only [eventWaitStep] at h
    split at h
    case h_1 call hcall =>
      have hrises : call.Rises s.clock .spurious := ⟨by decide, fun h => WaitStatus.noConfusion h⟩
      exact .rise hcall hrises (Option.some.inj h).symm
    case h_2 => exact absurd h.symm (Option.some_ne_none t)
  | timeOut thread =>
    simp only [eventWaitStep] at h
    split at h
    case h_1 call hcall =>
      obtain ⟨hlate, h⟩ := Option.ite_none_right_eq_some.mp h
      exact .rise hcall ⟨by decide, fun _ => hlate⟩ (Option.some.inj h).symm
    case h_2 => exact absurd h.symm (Option.some_ne_none t)

/-! ## Without the clock -/

def EventThread.sleeper : EventThread → Option EventWait
  | .waiting call _ => some call.wait
  | _ => none

def TimedReturn.forget (r : TimedReturn) : EventReturn := ⟨r.call.wait, r.value, r.before, r.after⟩

/-- What the group and its waiters are without clock and condition variable. -/
def EventWaits.forget (s : EventWaits) : EventSystem where
  group := s.group
  asleep thread := (s.threads[thread]?).bind EventThread.sleeper
  sets := s.sets
  returns := s.returns.map TimedReturn.forget

section Forget

variable {s : EventWaits} {thread : ℕ} {u : EventThread}

theorem sleeper_set (h : s.threads[thread]? = some u) (v : EventThread) :
    (fun i => ((s.threads.set thread v)[i]?).bind EventThread.sleeper) =
      Function.update s.forget.asleep thread v.sleeper := by
  have hlt : thread < s.threads.length := (List.getElem?_eq_some_iff.mp h).1
  funext i
  by_cases hi : i = thread
  · subst hi
    rw [Function.update_self, List.getElem?_set_self hlt, Option.bind_some]
  · rw [Function.update_of_ne hi, List.getElem?_set_ne (Ne.symm hi)]
    rfl

theorem sleeper_broadcast (threads : List EventThread) (i : ℕ) :
    ((condEvents.broadcast threads)[i]?).bind EventThread.sleeper =
      (threads[i]?).bind EventThread.sleeper := by
  rw [CondVar.broadcast, List.getElem?_map]
  cases threads[i]? with
  | none => rfl
  | some t =>
    change (if condEvents.asleep t then condEvents.wake t else t).sleeper = t.sleeper
    split
    · cases t <;> rfl
    · rfl

theorem forget_pass (h : s.threads[thread]? = some u) (call : EventCall) :
    (s.pass thread call).forget = s.forget.pass thread call.wait := by
  unfold EventWaits.pass EventSystem.pass
  rcases hwait : eventGroupWait s.group call.wait with ⟨_ | value, group⟩
  · simp only [EventWaits.forget, hwait]
    rw [sleeper_set h]
    rfl
  · simp only [EventWaits.forget, hwait, List.map_append]
    rw [sleeper_set h]
    rfl

theorem forget_expire (h : s.threads[thread]? = some u) (call : EventCall) :
    (s.expire thread call).forget = s.forget.expire thread call.wait := by
  simp only [EventWaits.expire, EventSystem.expire, EventWaits.forget, List.map_append]
  rw [sleeper_set h]
  rfl

theorem forget_set (h : s.threads[thread]? = some u) {v : EventThread} (hv : v.sleeper = u.sleeper) :
    EventWaits.forget { s with threads := s.threads.set thread v } = s.forget := by
  have hsleeper : s.forget.asleep thread = v.sleeper := by
    change (s.threads[thread]?).bind EventThread.sleeper = v.sleeper
    rw [h, hv, Option.bind_some]
  simp only [EventWaits.forget]
  rw [sleeper_set h, ← hsleeper, Function.update_eq_self]
  rfl

/-- **Step.** A step is one of the system without the clock, or not seen there. -/
theorem forget_step {t : EventWaits} {a : EventWaitAction} (hstep : eventWaitStep s a = some t) :
    t.forget = s.forget ∨ ∃ b, eventStep s.forget b = some t.forget := by
  cases eventWaitStep_cases hstep with
  | tick clock _ _ ht =>
    obtain rfl := ht
    exact .inl rfl
  | set eventBit ht =>
    obtain rfl := ht
    refine .inr ⟨.set eventBit, ?_⟩
    simp only [eventStep, EventWaits.forget, sleeper_broadcast]
  | clear eventBit ht =>
    obtain rfl := ht
    exact .inr ⟨.clear eventBit, rfl⟩
  | enter hidle w ht =>
    obtain rfl := ht
    exact .inl (forget_set hidle rfl)
  | @pass thread u call hu hpass ht =>
    obtain rfl := ht
    right
    rw [forget_pass hu]
    rcases hpass with rfl | ⟨status, -, -, rfl⟩
    · refine ⟨.wait thread call.wait, ?_⟩
      simp [eventStep, EventWaits.forget, hu, EventThread.sleeper]
    · refine ⟨.wake thread, ?_⟩
      simp [eventStep, EventWaits.forget, hu, EventThread.sleeper]
  | @expire thread call hu ht =>
    obtain rfl := ht
    refine .inr ⟨.timeOut thread, ?_⟩
    rw [forget_expire hu]
    simp [eventStep, EventWaits.forget, hu, EventThread.sleeper]
  | rise hasleep _ ht =>
    obtain rfl := ht
    exact .inl (forget_set hasleep rfl)

end Forget

/-! ## The invariant -/

def EventCall.met (call : EventCall) (bits : BitVec 8) : Bool :=
  call.wait.conditionMet (bits &&& call.wait.waitBits)

/-- The call began before now, and its deadline is its timeout later. -/
structure EventCall.Timed (call : EventCall) (clock : Timespec) : Prop where
  begun : call.begun.ns ≤ clock.ns
  timeout : call.timeout.After call.begun call.wait.timeoutMs.toNat

/-- A sleeper's condition is not met, and a thread that timed out is at its deadline. -/
structure EventCall.Sleeps (call : EventCall) (status : WaitStatus) (bits : BitVec 8)
    (clock : Timespec) : Prop where
  unmet : status = .asleep → call.met bits = false
  late : status = .timedOut → call.timeout.ns ≤ clock.ns

def EventThread.Timely (bits : BitVec 8) (clock : Timespec) : EventThread → Prop
  | .idle => True
  | .entering call => call.Timed clock
  | .waiting call status => call.Timed clock ∧ call.Sleeps status bits clock

/-- The bits that were waited for; a return whose condition is not met comes at the deadline, and
one whose condition is met has cleared its bits unless it is at its deadline. -/
structure TimedReturn.Timely (r : TimedReturn) : Prop where
  value : r.value = r.before &&& r.call.wait.waitBits
  unmet : r.call.met r.before = false → r.after = r.before ∧
    r.call.begun.ns + r.call.wait.timeoutMs.toNat * 1000000 ≤ r.time.ns
  met : r.call.met r.before = true → r.after = r.before &&& ~~~r.call.wait.clearBits ∨
    (r.after = r.before ∧ r.call.begun.ns + r.call.wait.timeoutMs.toNat * 1000000 ≤ r.time.ns)

structure EventWaits.Timely (s : EventWaits) : Prop where
  clock : s.clock.Normal
  threads : ∀ t ∈ s.threads, t.Timely s.group.bits s.clock
  returns : ∀ r ∈ s.returns, r.Timely

theorem start_timely {clock : Timespec} (hclock : clock.Normal) (threads : ℕ) :
    (EventWaits.start clock threads).Timely where
  clock := hclock
  threads t ht := by
    obtain rfl := List.eq_of_mem_replicate ht
    trivial
  returns _ h := absurd h List.not_mem_nil

theorem met_clear {call : EventCall} {bits : BitVec 8} (h : call.met bits = false) (mask : BitVec 8) :
    call.met (bits &&& mask) = false := by
  obtain ⟨⟨waitBits, clearBits, waitAll, timeoutMs⟩, begun, timeout⟩ := call
  have hand : bits &&& mask &&& waitBits = bits &&& waitBits &&& mask := by
    rw [BitVec.and_assoc, BitVec.and_comm mask, ← BitVec.and_assoc]
  cases waitAll with
  | false =>
    have hnone : bits &&& waitBits = 0 := by simpa [EventCall.met, EventWait.conditionMet] using h
    simp [EventCall.met, EventWait.conditionMet, hand, hnone]
  | true =>
    have hsome : bits &&& waitBits ≠ waitBits := by
      simpa [EventCall.met, EventWait.conditionMet] using h
    simp only [EventCall.met, EventWait.conditionMet, if_true, and_bitsMask, hand]
    refine decide_eq_false fun hall => hsome ?_
    calc bits &&& waitBits = bits &&& (bits &&& waitBits &&& mask) := by rw [hall]
      _ = bits &&& waitBits &&& mask := by rw [← BitVec.and_assoc, ← BitVec.and_assoc, BitVec.and_self]
      _ = waitBits := hall

section Timely

variable {s t : EventWaits} {call : EventCall} {bits : BitVec 8} {clock : Timespec}

theorem EventThread.Timely.later {u : EventThread} (h : u.Timely bits clock) {later : Timespec}
    (hlater : clock.ns ≤ later.ns) : u.Timely bits later := by
  cases u with
  | idle => trivial
  | entering call => exact ⟨Int.le_trans h.begun hlater, h.timeout⟩
  | waiting call status =>
    exact ⟨⟨Int.le_trans h.1.begun hlater, h.1.timeout⟩, h.2.unmet,
      fun hout => Int.le_trans (h.2.late hout) hlater⟩

theorem EventThread.Timely.fewer {u : EventThread} (h : u.Timely bits clock) (mask : BitVec 8) :
    u.Timely (bits &&& mask) clock := by
  cases u with
  | waiting call status =>
    exact ⟨h.1, fun hasleep => met_clear (h.2.unmet hasleep) mask, h.2.late⟩
  | _ => exact h

theorem broadcast_timely {threads : List EventThread} (h : ∀ u ∈ threads, u.Timely bits clock)
    (more : BitVec 8) : ∀ u ∈ condEvents.broadcast threads, u.Timely more clock := by
  intro u hu
  obtain ⟨v, hv, rfl⟩ := List.mem_map.mp hu
  have hv := h v hv
  cases v with
  | waiting call status =>
    by_cases hasleep : status = .asleep
    · have hwaits : condEvents.asleep (.waiting call status) = true := decide_eq_true hasleep
      rw [if_pos hwaits]
      exact ⟨hv.1, fun h => WaitStatus.noConfusion h, fun h => WaitStatus.noConfusion h⟩
    · have hwaits : ¬condEvents.asleep (.waiting call status) = true := by
        simpa [condEvents, EventThread.waits] using hasleep
      rw [if_neg hwaits]
      exact ⟨hv.1, fun h => absurd h hasleep, hv.2.late⟩
  | _ => exact hv

theorem wait_outcome (eg : EventGroup) (call : EventCall) :
    (call.met eg.bits = true ∧ eventGroupWait eg call.wait =
      (some (eg.bits &&& call.wait.waitBits), { bits := eg.bits &&& ~~~call.wait.clearBits })) ∨
    (call.met eg.bits = false ∧ call.wait.timeoutMs = 0 ∧
      eventGroupWait eg call.wait = (some (eg.bits &&& call.wait.waitBits), eg)) ∨
    (call.met eg.bits = false ∧ eventGroupWait eg call.wait = (none, eg)) := by
  unfold eventGroupWait EventCall.met
  simp only [and_bitsMask, cleared_eq]
  cases hmet : call.wait.conditionMet (eg.bits &&& call.wait.waitBits) with
  | true => exact .inl ⟨rfl, rfl⟩
  | false =>
    by_cases hpoll : call.wait.timeoutMs = 0
    · exact .inr (.inl ⟨rfl, hpoll, by simp [hpoll]⟩)
    · exact .inr (.inr ⟨rfl, by simp [hpoll]⟩)

theorem EventCall.Timed.polls (h : call.Timed clock) (hpoll : call.wait.timeoutMs = 0) :
    call.begun.ns + call.wait.timeoutMs.toNat * 1000000 ≤ clock.ns := by
  have hbegun := h.begun
  rw [hpoll, show (0 : UInt32).toNat = 0 from rfl]
  omega

theorem EventCall.Timed.late (h : call.Timed clock) (hlate : call.timeout.ns ≤ clock.ns) :
    call.begun.ns + call.wait.timeoutMs.toNat * 1000000 ≤ clock.ns := h.timeout.ns ▸ hlate

theorem EventWaits.Timely.pass (h : s.Timely) (thread : ℕ) (hcall : call.Timed s.clock) :
    (s.pass thread call).Timely := by
  unfold EventWaits.pass
  rcases wait_outcome s.group call with ⟨hmet, heq⟩ | ⟨hunmet, hpoll, heq⟩ | ⟨hunmet, heq⟩ <;> rw [heq]
  · refine ⟨h.clock, Threads.forall_mem_set (fun u hu => (h.threads u hu).fewer _) thread trivial,
      List.forall_mem_append.mpr ⟨h.returns, List.forall_mem_singleton.mpr ?_⟩⟩
    exact ⟨rfl, fun hunmet => absurd (hmet.symm.trans hunmet) Bool.noConfusion, fun _ => .inl rfl⟩
  · refine ⟨h.clock, Threads.forall_mem_set h.threads thread trivial,
      List.forall_mem_append.mpr ⟨h.returns, List.forall_mem_singleton.mpr ?_⟩⟩
    exact ⟨rfl, fun _ => ⟨rfl, hcall.polls hpoll⟩,
      fun hmet => absurd (hunmet.symm.trans hmet) Bool.noConfusion⟩
  · refine ⟨h.clock, Threads.forall_mem_set h.threads thread ?_, h.returns⟩
    exact ⟨hcall, fun _ => hunmet, fun hout => WaitStatus.noConfusion hout⟩

theorem EventWaits.Timely.expire (h : s.Timely) (thread : ℕ) (hcall : call.Timed s.clock)
    (hlate : call.timeout.ns ≤ s.clock.ns) : (s.expire thread call).Timely := by
  refine ⟨h.clock, Threads.forall_mem_set h.threads thread trivial,
    List.forall_mem_append.mpr ⟨h.returns, List.forall_mem_singleton.mpr ?_⟩⟩
  exact ⟨rfl, fun _ => ⟨rfl, hcall.late hlate⟩, fun _ => .inr ⟨rfl, hcall.late hlate⟩⟩

/-- **Step.** -/
theorem eventWaitStep_timely (s : EventWaits) (a : EventWaitAction) (t : EventWaits) (h : s.Timely)
    (hstep : eventWaitStep s a = some t) : t.Timely := by
  cases eventWaitStep_cases hstep with
  | tick clock hnormal hlater ht =>
    obtain rfl := ht
    exact ⟨hnormal, fun u hu => (h.threads u hu).later hlater, h.returns⟩
  | set eventBit ht =>
    obtain rfl := ht
    exact ⟨h.clock, broadcast_timely h.threads _, h.returns⟩
  | clear eventBit ht =>
    obtain rfl := ht
    refine ⟨h.clock, fun u hu => ?_, h.returns⟩
    rw [clearBit_eq]
    exact (h.threads u hu).fewer _
  | @enter thread _ w ht =>
    obtain rfl := ht
    refine ⟨h.clock, Threads.forall_mem_set h.threads thread ?_, h.returns⟩
    exact ⟨Int.le_refl _, eventGroupTimeout_after h.clock w.timeoutMs⟩
  | @pass thread u _ hu hpass ht =>
    obtain rfl := ht
    have hthread := h.threads u (List.mem_of_getElem? hu)
    refine h.pass thread ?_
    rcases hpass with rfl | ⟨status, -, -, rfl⟩
    · exact hthread
    · exact hthread.1
  | @expire thread _ hu ht =>
    obtain rfl := ht
    have hthread := h.threads _ (List.mem_of_getElem? hu)
    exact h.expire thread hthread.1 (hthread.2.late rfl)
  | @rise thread _ _ hu hrises ht =>
    obtain rfl := ht
    have hthread := h.threads _ (List.mem_of_getElem? hu)
    refine ⟨h.clock, Threads.forall_mem_set h.threads thread ⟨hthread.1, ?_, hrises.late⟩, h.returns⟩
    exact fun hasleep => absurd hasleep hrises.awake

end Timely

/-! ## Any run -/

theorem forget_start (clock : Timespec) (threads : ℕ) : (EventWaits.start clock threads).forget = {} := by
  simp only [EventWaits.forget, EventWaits.start, List.map_nil, EventSystem.mk.injEq, true_and, and_true]
  funext i
  rw [List.getElem?_replicate]
  split <;> rfl

/-- Every run of the threads with their clock is a run of the group as it was without it. No thread
sleeps while the bits meet its condition. A call whose condition is not met when it returns has
waited for its whole timeout and changes nothing, and one whose condition is met has cleared its
bits or had waited as long. -/
theorem waits_are_timely {clock : Timespec} (hclock : clock.Normal) (threads : ℕ)
    (actions : List EventWaitAction) (s : EventWaits)
    (hrun : Runs.run eventWaitStep (.start clock threads) actions = some s) :
    (∃ bs, Runs.run eventStep {} bs = some s.forget) ∧
    (∀ call, EventThread.waiting call .asleep ∈ s.threads → call.met s.group.bits = false) ∧
    ∀ r ∈ s.returns, r.Timely := by
  have halong : Runs.Along eventWaitStep (fun _ _ => True) (.start clock threads) actions :=
    Runs.along_true _ actions
  have h : s.Timely := Runs.run_invariant EventWaits.Timely
    (fun s a t hs _ => eventWaitStep_timely s a t hs) (start_timely hclock threads) halong hrun
  refine ⟨?_, fun call hcall => (h.threads _ hcall).2.unmet rfl, h.returns⟩
  rw [← forget_start clock threads]
  exact Runs.exists_abstract_run (fun _ => True) EventWaits.forget
    (fun _ _ _ _ _ hstep => ⟨trivial, forget_step hstep⟩) trivial halong hrun

/-- A wait for a tenth of a second that begins shortly before the end of a second. -/
def briefCall : EventCall :=
  ⟨waitForFirst, ⟨7, 950000000⟩, eventGroupTimeout ⟨7, 950000000⟩ waitForFirst.timeoutMs⟩

def brief : List EventWaitAction :=
  [.enter 0 waitForFirst, .pass 0, .tick ⟨8, 50000000⟩, .timeOut 0, .pass 0]

theorem waits_are_timely_brief : ∃ s r,
    Runs.run eventWaitStep (.start ⟨7, 950000000⟩ 1) brief = some s ∧
    s.returns = [r] ∧ r.Timely ∧ r.call.timeout = ⟨8, 50000000⟩ := by
  let asleep (clock : Timespec) (status : WaitStatus) : EventWaits :=
    { clock, threads := [.waiting briefCall status] }
  have htimeout : briefCall.timeout = ⟨8, 50000000⟩ := by decide
  have htick : eventWaitStep (asleep ⟨7, 950000000⟩ .asleep) (.tick ⟨8, 50000000⟩) =
      some (asleep ⟨8, 50000000⟩ .asleep) := by
    simp [eventWaitStep, asleep, Timespec.Normal, Timespec.ns]
  have hexpires : eventWaitStep (asleep ⟨8, 50000000⟩ .asleep) (.timeOut 0) =
      some (asleep ⟨8, 50000000⟩ .timedOut) := by
    simp [eventWaitStep, asleep, htimeout]
  have hrun : Runs.run eventWaitStep (.start ⟨7, 950000000⟩ 1) brief =
      some ((asleep ⟨8, 50000000⟩ .timedOut).expire 0 briefCall) :=
    Runs.run_cons.mpr ⟨_, rfl, Runs.run_cons.mpr ⟨asleep ⟨7, 950000000⟩ .asleep, rfl,
      Runs.run_cons.mpr ⟨_, htick, Runs.run_cons.mpr ⟨_, hexpires, rfl⟩⟩⟩⟩
  obtain ⟨-, -, hreturns⟩ := waits_are_timely (by decide) 1 brief _ hrun
  exact ⟨_, _, hrun, rfl, hreturns _ List.mem_cons_self, htimeout⟩

end MlinkDevice
