import MlinkDevice.Deadlines
import MlinkDevice.QueueThreads
import Mathlib.Logic.Function.Basic

/-!
# Receiving with a timeout

The threads on a queue with the clock that `calc_timeout` reads under the mutex. A receiver that
waits can time out from its deadline on, and takes an item that is there when it has the mutex
again.
-/

namespace MlinkDevice

/-! ## Steps -/

/-- A call of `queue_recv`, which reads the clock once it has the mutex. -/
structure RecvCall where
  timeoutMs : Int32
  begun : Timespec
  ts : Timespec

structure TimedRecv where
  call : RecvCall
  back : RecvReturn
  time : Timespec

/-- `calls` is the last call of each thread. -/
structure QueueWaits where
  system : QueueSystem
  clock : Timespec
  calls : ℕ → Option RecvCall := fun _ => none
  finished : List TimedRecv := []

inductive QueueWaitAction where
  | tick (clock : Timespec)
  | queue (action : QueueAction)

/-- The call that the section is part of. -/
def QueueWaits.callOf (s : QueueWaits) : QueueAction → Option RecvCall
  | .recv _ _ timeoutMs _ => some ⟨timeoutMs, s.clock, calcTimeout s.clock timeoutMs⟩
  | .resume thread _ => s.calls thread
  | _ => none

/-- A thread does not time out before its deadline. -/
def QueueWaits.due (s : QueueWaits) : QueueAction → Bool
  | .timeOut thread => (s.calls thread).any fun call => call.ts.ns ≤ s.clock.ns
  | _ => true

def QueueWaits.after (s : QueueWaits) (action : QueueAction) (system : QueueSystem) : QueueWaits where
  system
  clock := s.clock
  calls := match action with
    | .recv thread _ _ _ => Function.update s.calls thread (s.callOf action)
    | _ => s.calls
  finished := s.finished ++ (s.callOf action).toList.flatMap fun call =>
    (system.returns.drop s.system.returns.length).map fun back => ⟨call, back, s.clock⟩

/-- The clock is not set back. -/
def queueWaitStep (s : QueueWaits) : QueueWaitAction → Option QueueWaits
  | .tick clock => if clock.Normal ∧ s.clock.ns ≤ clock.ns then some { s with clock } else none
  | .queue action =>
    if s.due action then (queueStep s.system action).map (s.after action) else none

/-! ## The receivers of a step -/

/-- Every receiver was one before, and none has timed out since. -/
def KeepsReceivers (threads threads' : List QueueThread) : Prop :=
  ∀ (i : ℕ) buffer timeoutMs status, threads'[i]? = some (.receiving buffer timeoutMs status) →
    ∃ old, threads[i]? = some (.receiving buffer timeoutMs old) ∧
      (status = .timedOut → old = .timedOut)

section Receivers

variable {threads threads' : List QueueThread} {thread : ℕ} {u : QueueThread}

theorem KeepsReceivers.refl (threads : List QueueThread) : KeepsReceivers threads threads :=
  fun _ _ _ status h => ⟨status, h, id⟩

theorem KeepsReceivers.trans {threads'' : List QueueThread} (h : KeepsReceivers threads threads')
    (h' : KeepsReceivers threads' threads'') : KeepsReceivers threads threads'' := by
  intro i buffer timeoutMs status hi
  obtain ⟨middle, hmiddle, hlast⟩ := h' i buffer timeoutMs status hi
  obtain ⟨old, hold, hfirst⟩ := h i buffer timeoutMs middle hmiddle
  exact ⟨old, hold, fun hout => hfirst (hlast hout)⟩

theorem KeepsReceivers.set (hold : threads[thread]? = some u) {v : QueueThread}
    (hv : ∀ buffer timeoutMs status, v = .receiving buffer timeoutMs status →
      ∃ old, u = .receiving buffer timeoutMs old ∧ (status = .timedOut → old = .timedOut)) :
    KeepsReceivers threads (threads.set thread v) := by
  intro i buffer timeoutMs status hi
  rcases Threads.getElem?_of_set hold hi with ⟨rfl, hreceives⟩ | ⟨-, hi⟩
  · obtain ⟨old, rfl, hout⟩ := hv buffer timeoutMs status hreceives
    exact ⟨old, hold, hout⟩
  · exact ⟨status, hi, id⟩

theorem become_receiving {status current : WaitStatus} (hstatus : status ≠ .timedOut)
    {buffer : List UInt8} {timeoutMs : Int32}
    (h : u.become status = .receiving buffer timeoutMs current) :
    ∃ old, u = .receiving buffer timeoutMs old ∧ (current = .timedOut → old = .timedOut) := by
  cases u with
  | receiving buffer' timeoutMs' old =>
    obtain ⟨rfl, rfl, rfl⟩ := QueueThread.receiving.inj h
    exact ⟨old, rfl, fun hout => absurd hout hstatus⟩
  | _ => exact QueueThread.noConfusion h

theorem KeepsReceivers.woken (h : ∀ (i : ℕ) u, threads'[i]? = some u →
    ∃ t, threads[i]? = some t ∧ (u = t ∨ u = t.become .signalled)) : KeepsReceivers threads threads' := by
  intro i buffer timeoutMs status hi
  obtain ⟨t, ht, rfl | hu⟩ := h i _ hi
  · exact ⟨status, ht, id⟩
  · obtain ⟨old, rfl, hout⟩ := become_receiving WaitStatus.noConfusion hu.symm
    exact ⟨old, ht, hout⟩

theorem KeepsReceivers.signal (c : CondVar QueueThread) (hwake : c.wake = QueueThread.become .signalled)
    (chosen : List Bool) (threads : List QueueThread) :
    KeepsReceivers threads (c.signal chosen threads) := by
  refine .woken fun i u hu => ?_
  obtain ⟨t, ht, rfl | ⟨-, rfl⟩⟩ := CondVar.getElem?_signal hu
  · exact ⟨u, ht, .inl rfl⟩
  · exact ⟨t, ht, .inr (by rw [hwake])⟩

theorem KeepsReceivers.broadcast (c : CondVar QueueThread)
    (hwake : c.wake = QueueThread.become .signalled) (threads : List QueueThread) :
    KeepsReceivers threads (c.broadcast threads) := by
  refine .woken fun i u hu => ?_
  obtain ⟨t, ht, rfl | ⟨-, rfl⟩⟩ := CondVar.getElem?_broadcast hu
  · exact ⟨u, ht, .inl rfl⟩
  · exact ⟨t, ht, .inr (by rw [hwake])⟩

theorem sendPass_keeps {s t : QueueSystem} {buffer : List UInt8} {chosen : List Bool}
    (hu : s.threads[thread]? = some u) (h : s.sendPass thread buffer chosen = some t) :
    KeepsReceivers s.threads t.threads ∧ t.returns = s.returns := by
  rcases sendPass_cases h with ⟨-, rfl⟩ | ⟨queue, -, -, rfl⟩
  · exact ⟨.set hu fun _ _ _ hv => QueueThread.noConfusion hv, rfl⟩
  · exact ⟨(KeepsReceivers.set hu fun _ _ _ hv => QueueThread.noConfusion hv).trans
      (.signal condNotEmpty rfl chosen _), rfl⟩

/-- The return found the queue empty, and leaves it and the buffer as they are. -/
structure RecvReturn.FindsNothing (back : RecvReturn) : Prop where
  empty : back.before.count = 0
  queue : back.after = back.before
  buffer : back.got = back.given

theorem recvPass_keeps {s t : QueueSystem} {buffer : List UInt8} {timeoutMs : Int32} {timedOut : Bool}
    {chosen : List Bool} (hu : s.threads[thread]? = some u)
    (h : s.recvPass thread buffer timeoutMs timedOut chosen = some t) :
    (timeoutMs ≠ 0 ∧ t = { s with threads := s.threads.set thread (.receiving buffer timeoutMs .asleep) }) ∨
    ∃ back, t.returns = s.returns ++ [back] ∧ KeepsReceivers s.threads t.threads ∧
      (back.result ≠ 0 → back.FindsNothing ∧ (timeoutMs = 0 ∨ timedOut = true)) := by
  have hidle : KeepsReceivers s.threads (s.threads.set thread .idle) :=
    .set hu fun _ _ _ hv => QueueThread.noConfusion hv
  unfold QueueSystem.recvPass queueRecv at h
  by_cases hwaits : timeoutMs ≠ 0 ∧ s.queue.count = 0 ∧ timedOut = false
  · rw [if_pos hwaits] at h
    exact .inl ⟨hwaits.1, (Option.some.inj h).symm⟩
  · right
    rw [if_neg hwaits] at h
    by_cases hempty : s.queue.count = 0
    · rw [if_pos hempty] at h
      obtain rfl := Option.some.inj h
      refine ⟨_, rfl, hidle, fun _ => ⟨⟨hempty, rfl, rfl⟩, ?_⟩⟩
      by_contra hnone
      obtain ⟨htimeout, hin⟩ := not_or.mp hnone
      exact hwaits ⟨htimeout, hempty, Bool.eq_false_iff.mpr hin⟩
    · rw [if_neg hempty] at h
      obtain ⟨-, h⟩ := Option.ite_none_right_eq_some.mp h
      obtain rfl := Option.some.inj h
      exact ⟨_, rfl, hidle.trans (.signal condNotFull rfl chosen _), fun h => absurd rfl h⟩

end Receivers

/-- The clock matters to the section. -/
def QueueAction.timed : QueueAction → Bool
  | .recv _ _ _ _ | .timeOut _ => true
  | _ => false

/-- What a step does to the receivers and their returns. -/
inductive ReceiverStep (s t : QueueSystem) : QueueAction → Prop where
  | keeps {a : QueueAction} (other : a.timed = false) (keeps : KeepsReceivers s.threads t.threads)
    (returns : t.returns = s.returns) : ReceiverStep s t a
  | waits {thread : ℕ} {buffer : List UInt8} {timeoutMs : Int32} {chosen : List Bool}
    (idle : s.threads[thread]? = some .idle) (timeout : timeoutMs ≠ 0)
    (waits : t = { s with threads := s.threads.set thread (.receiving buffer timeoutMs .asleep) }) :
    ReceiverStep s t (.recv thread buffer timeoutMs chosen)
  | polls {thread : ℕ} {buffer : List UInt8} {timeoutMs : Int32} {chosen : List Bool}
    {back : RecvReturn} (idle : s.threads[thread]? = some .idle)
    (returns : t.returns = s.returns ++ [back]) (keeps : KeepsReceivers s.threads t.threads)
    (fails : back.result ≠ 0 → back.FindsNothing ∧ timeoutMs = 0) :
    ReceiverStep s t (.recv thread buffer timeoutMs chosen)
  | timesOut {thread : ℕ} {buffer : List UInt8} {timeoutMs : Int32}
    (asleep : s.threads[thread]? = some (.receiving buffer timeoutMs .asleep))
    (timeout : 0 < timeoutMs)
    (timesOut : t = { s with threads := s.threads.set thread (.receiving buffer timeoutMs .timedOut) }) :
    ReceiverStep s t (.timeOut thread)
  | returns {thread : ℕ} {buffer : List UInt8} {timeoutMs : Int32} {status : WaitStatus}
    {chosen : List Bool} {back : RecvReturn}
    (waiting : s.threads[thread]? = some (.receiving buffer timeoutMs status))
    (returns : t.returns = s.returns ++ [back]) (keeps : KeepsReceivers s.threads t.threads)
    (fails : back.result ≠ 0 → back.FindsNothing ∧ (timeoutMs = 0 ∨ status = .timedOut)) :
    ReceiverStep s t (.resume thread chosen)

theorem queueStep_receivers {s t : QueueSystem} {a : QueueAction} (h : queueStep s a = some t) :
    ReceiverStep s t a := by
  cases a with
  | send thread buffer chosen =>
    obtain ⟨⟨hidle, -⟩, hpass⟩ := Option.ite_none_right_eq_some.mp h
    obtain ⟨hkeeps, hreturns⟩ := sendPass_keeps hidle hpass
    exact .keeps rfl hkeeps hreturns
  | recv thread buffer timeoutMs chosen =>
    obtain ⟨⟨hidle, -⟩, hpass⟩ := Option.ite_none_right_eq_some.mp h
    rcases recvPass_keeps hidle hpass with ⟨htimeout, ht⟩ | ⟨back, hreturns, hkeeps, hfails⟩
    · exact .waits hidle htimeout ht
    · refine .polls hidle hreturns hkeeps fun hresult => ?_
      obtain ⟨hnothing, hcause⟩ := hfails hresult
      exact ⟨hnothing, hcause.resolve_right Bool.false_ne_true⟩
  | spurious thread =>
    simp only [queueStep] at h
    split at h
    case h_1 u hu =>
      obtain ⟨-, h⟩ := Option.ite_none_right_eq_some.mp h
      obtain rfl := Option.some.inj h
      exact .keeps rfl (.set hu fun _ _ _ hv => become_receiving WaitStatus.noConfusion hv) rfl
    case h_2 => exact absurd h.symm (Option.some_ne_none t)
  | timeOut thread =>
    simp only [queueStep] at h
    split at h
    case h_1 buffer timeoutMs hu =>
      obtain ⟨htimeout, h⟩ := Option.ite_none_right_eq_some.mp h
      exact .timesOut hu htimeout (Option.some.inj h).symm
    case h_2 => exact absurd h.symm (Option.some_ne_none t)
  | resume thread chosen =>
    simp only [queueStep] at h
    split at h
    case h_1 buffer status hu =>
      obtain ⟨-, hpass⟩ := Option.ite_none_left_eq_some.mp h
      obtain ⟨hkeeps, hreturns⟩ := sendPass_keeps hu hpass
      exact .keeps rfl hkeeps hreturns
    case h_2 buffer timeoutMs status hu =>
      obtain ⟨-, hpass⟩ := Option.ite_none_left_eq_some.mp h
      rcases recvPass_keeps hu hpass with ⟨-, rfl⟩ | ⟨back, hreturns, hkeeps, hfails⟩
      · refine .keeps rfl (.set hu fun _ _ _ hv => ?_) rfl
        obtain ⟨rfl, rfl, rfl⟩ := QueueThread.receiving.inj hv
        exact ⟨status, rfl, fun hout => WaitStatus.noConfusion hout⟩
      · refine .returns hu hreturns hkeeps fun hresult => ?_
        obtain ⟨hnothing, hcause⟩ := hfails hresult
        exact ⟨hnothing, hcause.imp_right of_decide_eq_true⟩
    case h_3 => exact absurd h.symm (Option.some_ne_none t)
  | reset =>
    obtain rfl := Option.some.inj h
    exact .keeps rfl ((KeepsReceivers.broadcast condNotEmpty rfl s.threads).trans
      (.broadcast condNotFull rfl _)) rfl

/-! ## The invariant -/

/-- The call began before now; a positive timeout ends that much later. -/
structure RecvCall.Timed (call : RecvCall) (clock : Timespec) : Prop where
  begun : call.begun.ns ≤ clock.ns
  ts : 0 < call.timeoutMs → call.ts.After call.begun call.timeoutMs.toInt

/-- A thread that waits does so for its call, whose timeout is not zero, and times out late. -/
structure RecvCall.Waits (call : RecvCall) (timeoutMs : Int32) (status : WaitStatus)
    (clock : Timespec) : Prop where
  timed : call.Timed clock
  timeout : call.timeoutMs = timeoutMs
  waits : timeoutMs ≠ 0
  late : status = .timedOut → 0 < timeoutMs ∧ call.ts.ns ≤ clock.ns

/-- Only a receive with a timeout of zero, or one at the end of its timeout, finds nothing. -/
def TimedRecv.Timely (r : TimedRecv) : Prop :=
  r.back.result ≠ 0 → r.back.FindsNothing ∧ (r.call.timeoutMs = 0 ∨ 0 < r.call.timeoutMs ∧
    r.call.begun.ns + r.call.timeoutMs.toInt * 1000000 ≤ r.time.ns)

structure QueueWaits.Timely (s : QueueWaits) : Prop where
  clock : s.clock.Normal
  calls : ∀ (i : ℕ) buffer timeoutMs status,
    s.system.threads[i]? = some (.receiving buffer timeoutMs status) →
      ∃ call, s.calls i = some call ∧ call.Waits timeoutMs status s.clock
  finished : ∀ r ∈ s.finished, r.Timely
  returns : s.finished.map TimedRecv.back = s.system.returns

section Timely

variable {s : QueueWaits} {system : QueueSystem} {clock : Timespec} {call : RecvCall}

theorem RecvCall.Waits.later {timeoutMs : Int32} {status : WaitStatus}
    (h : call.Waits timeoutMs status clock) {later : Timespec} (hlater : clock.ns ≤ later.ns) :
    call.Waits timeoutMs status later where
  timed := ⟨Int.le_trans h.timed.begun hlater, h.timed.ts⟩
  timeout := h.timeout
  waits := h.waits
  late hout := (h.late hout).imp_right fun hlate => Int.le_trans hlate hlater

theorem RecvCall.Waits.timely {timeoutMs : Int32} {status : WaitStatus}
    (h : call.Waits timeoutMs status clock) {back : RecvReturn}
    (hfails : back.result ≠ 0 → back.FindsNothing ∧ (timeoutMs = 0 ∨ status = .timedOut)) :
    TimedRecv.Timely ⟨call, back, clock⟩ := by
  intro hresult
  obtain ⟨hnothing, hcause⟩ := hfails hresult
  obtain ⟨hpos, hlate⟩ := h.late (hcause.resolve_left h.waits)
  have hpos : 0 < call.timeoutMs := h.timeout ▸ hpos
  exact ⟨hnothing, .inr ⟨hpos, (h.timed.ts hpos).ns ▸ hlate⟩⟩

theorem QueueWaits.Timely.keeps (h : s.Timely) (hkeeps : KeepsReceivers s.system.threads system.threads)
    (i : ℕ) (buffer : List UInt8) (timeoutMs : Int32) (status : WaitStatus)
    (hi : system.threads[i]? = some (.receiving buffer timeoutMs status)) :
    ∃ call, s.calls i = some call ∧ call.Waits timeoutMs status s.clock := by
  obtain ⟨old, hold, hout⟩ := hkeeps i buffer timeoutMs status hi
  obtain ⟨call, hcall, hwaits⟩ := h.calls i buffer timeoutMs old hold
  exact ⟨call, hcall, hwaits.timed, hwaits.timeout, hwaits.waits, fun hlate => hwaits.late (hout hlate)⟩

theorem after_finished {a : QueueAction} (hcall : s.callOf a = some call) {back : RecvReturn}
    (hreturns : system.returns = s.system.returns ++ [back]) :
    (s.after a system).finished = s.finished ++ [⟨call, back, s.clock⟩] := by
  simp only [QueueWaits.after, hcall, hreturns, List.drop_left, Option.toList_some, List.flatMap_singleton,
    List.map_singleton]

theorem after_unfinished {a : QueueAction} (hreturns : system.returns = s.system.returns) :
    (s.after a system).finished = s.finished := by
  simp [QueueWaits.after, hreturns]

theorem begun_timed (hclock : s.clock.Normal) (timeoutMs : Int32) :
    RecvCall.Timed ⟨timeoutMs, s.clock, calcTimeout s.clock timeoutMs⟩ s.clock where
  begun := Int.le_refl _
  ts hpos := calcTimeout_after hclock hpos

theorem QueueWaits.Timely.begins (h : s.Timely) {thread : ℕ} {buffer : List UInt8} {timeoutMs : Int32}
    {chosen : List Bool} (hidle : s.system.threads[thread]? = some .idle)
    (hkeeps : KeepsReceivers s.system.threads system.threads) (i : ℕ) (given : List UInt8)
    (timeout : Int32) (status : WaitStatus)
    (hi : system.threads[i]? = some (.receiving given timeout status)) :
    ∃ call, (s.after (.recv thread buffer timeoutMs chosen) system).calls i = some call ∧
      call.Waits timeout status s.clock := by
  have hne : i ≠ thread := by
    rintro rfl
    obtain ⟨old, hold, -⟩ := hkeeps i given timeout status hi
    exact QueueThread.noConfusion (Option.some.inj (hidle.symm.trans hold))
  obtain ⟨call, hcall, hwaits⟩ := h.keeps hkeeps i given timeout status hi
  exact ⟨call, (Function.update_of_ne hne _ _).trans hcall, hwaits⟩

/-- **Step.** A section of a call on the queue. -/
theorem QueueWaits.Timely.section (h : s.Timely) {a : QueueAction} (hdue : s.due a = true)
    (hstep : ReceiverStep s.system system a) : (s.after a system).Timely := by
  have hreturned {call : RecvCall} {back : RecvReturn} (hcall : s.callOf a = some call)
      (hreturns : system.returns = s.system.returns ++ [back])
      (htimely : TimedRecv.Timely ⟨call, back, s.clock⟩) :
      (∀ r ∈ (s.after a system).finished, r.Timely) ∧
        (s.after a system).finished.map TimedRecv.back = system.returns := by
    rw [after_finished hcall hreturns, List.map_append, h.returns, hreturns]
    exact ⟨List.forall_mem_append.mpr ⟨h.finished, List.forall_mem_singleton.mpr htimely⟩, rfl⟩
  have hsilent (hreturns : system.returns = s.system.returns) :
      (∀ r ∈ (s.after a system).finished, r.Timely) ∧
        (s.after a system).finished.map TimedRecv.back = system.returns := by
    rw [after_unfinished hreturns, h.returns, hreturns]
    exact ⟨h.finished, rfl⟩
  cases hstep with
  | keeps hother hkeeps hreturns =>
    obtain ⟨hfinished, hbacks⟩ := hsilent hreturns
    have hcalls : (s.after a system).calls = s.calls := by
      cases a with
      | recv => exact Bool.noConfusion hother
      | _ => rfl
    exact ⟨h.clock, hcalls ▸ h.keeps hkeeps, hfinished, hbacks⟩
  | waits hidle htimeout ht =>
    obtain rfl := ht
    obtain ⟨hfinished, hbacks⟩ := hsilent rfl
    refine ⟨h.clock, fun i given timeout status hi => ?_, hfinished, hbacks⟩
    rcases Threads.getElem?_of_set hidle hi with ⟨rfl, hwaits⟩ | ⟨hne, hi⟩
    · obtain ⟨rfl, rfl, rfl⟩ := QueueThread.receiving.inj hwaits
      exact ⟨_, Function.update_self .., begun_timed h.clock _, rfl, htimeout,
        fun hout => WaitStatus.noConfusion hout⟩
    · obtain ⟨call, hcall, hwaits⟩ := h.calls i given timeout status hi
      exact ⟨call, (Function.update_of_ne hne _ _).trans hcall, hwaits⟩
  | polls hidle hreturns hkeeps hfails =>
    obtain ⟨hfinished, hbacks⟩ := hreturned rfl hreturns fun hresult =>
      (hfails hresult).imp_right .inl
    exact ⟨h.clock, h.begins hidle hkeeps, hfinished, hbacks⟩
  | timesOut hasleep htimeout ht =>
    obtain rfl := ht
    obtain ⟨hfinished, hbacks⟩ := hsilent rfl
    refine ⟨h.clock, fun i given timeout status hi => ?_, hfinished, hbacks⟩
    rcases Threads.getElem?_of_set hasleep hi with ⟨rfl, hwaits⟩ | ⟨-, hi⟩
    · obtain ⟨rfl, rfl, rfl⟩ := QueueThread.receiving.inj hwaits
      obtain ⟨call, hcall, hwaits⟩ := h.calls _ _ _ _ hasleep
      have hlate : decide (call.ts.ns ≤ s.clock.ns) = true := by
        simpa only [QueueWaits.due, hcall, Option.any_some] using hdue
      exact ⟨call, hcall, hwaits.timed, hwaits.timeout, hwaits.waits,
        fun _ => ⟨htimeout, of_decide_eq_true hlate⟩⟩
    · exact h.calls i given timeout status hi
  | returns hwaiting hreturns hkeeps hfails =>
    obtain ⟨call, hcall, hwaits⟩ := h.calls _ _ _ _ hwaiting
    obtain ⟨hfinished, hbacks⟩ := hreturned hcall hreturns (hwaits.timely hfails)
    exact ⟨h.clock, h.keeps hkeeps, hfinished, hbacks⟩

/-- **Step.** -/
theorem queueWaitStep_timely (s : QueueWaits) (a : QueueWaitAction) (t : QueueWaits) (h : s.Timely)
    (hstep : queueWaitStep s a = some t) : t.Timely := by
  cases a with
  | tick clock =>
    obtain ⟨⟨hnormal, hlater⟩, hstep⟩ := Option.ite_none_right_eq_some.mp hstep
    obtain rfl := Option.some.inj hstep
    refine ⟨hnormal, fun i buffer timeoutMs status hi => ?_, h.finished, h.returns⟩
    obtain ⟨call, hcall, hwaits⟩ := h.calls i buffer timeoutMs status hi
    exact ⟨call, hcall, hwaits.later hlater⟩
  | queue action =>
    obtain ⟨hdue, hstep⟩ := Option.ite_none_right_eq_some.mp hstep
    obtain ⟨system, hsystem, rfl⟩ := Option.map_eq_some_iff.mp hstep
    exact h.section hdue (queueStep_receivers hsystem)

/-! ## With and without the clock -/

theorem queueWaitStep_system {t : QueueWaits} {a : QueueWaitAction} (hstep : queueWaitStep s a = some t) :
    t.system = s.system ∨ ∃ b, queueStep s.system b = some t.system := by
  cases a with
  | tick clock =>
    obtain ⟨-, hstep⟩ := Option.ite_none_right_eq_some.mp hstep
    obtain rfl := Option.some.inj hstep
    exact .inl rfl
  | queue action =>
    obtain ⟨-, hstep⟩ := Option.ite_none_right_eq_some.mp hstep
    obtain ⟨system, hsystem, rfl⟩ := Option.map_eq_some_iff.mp hstep
    exact .inr ⟨action, hsystem⟩

theorem QueueWaits.Timely.exists_due (h : s.Timely) {a : QueueAction}
    (hstep : ReceiverStep s.system system a) : ∃ clock : Timespec,
      clock.Normal ∧ s.clock.ns ≤ clock.ns ∧ QueueWaits.due { s with clock } a = true := by
  cases hstep with
  | timesOut hasleep htimeout ht =>
    obtain ⟨call, hcall, hwaits⟩ := h.calls _ _ _ _ hasleep
    have hts := hwaits.timed.ts (hwaits.timeout.symm ▸ htimeout)
    rcases Int.le_total s.clock.ns call.ts.ns with hbefore | hafter
    · exact ⟨call.ts, hts.normal, hbefore, by simp [QueueWaits.due, hcall]⟩
    · exact ⟨s.clock, h.clock, Int.le_refl _, by simpa [QueueWaits.due, hcall] using hafter⟩
  | keeps hother =>
    refine ⟨s.clock, h.clock, Int.le_refl _, ?_⟩
    cases a with
    | timeOut => exact Bool.noConfusion hother
    | _ => rfl
  | _ => exact ⟨s.clock, h.clock, Int.le_refl _, rfl⟩

theorem QueueWaits.Timely.follows (h : s.Timely) {a : QueueAction}
    (hstep : queueStep s.system a = some system) : ∃ actions t,
      Runs.run queueWaitStep s actions = some t ∧ t.Timely ∧ t.system = system := by
  have hreceivers := queueStep_receivers hstep
  obtain ⟨clock, hnormal, hlater, hdue⟩ := h.exists_due hreceivers
  have htick : queueWaitStep s (.tick clock) = some { s with clock } := if_pos ⟨hnormal, hlater⟩
  have hsection : queueWaitStep { s with clock } (.queue a) =
      some (QueueWaits.after { s with clock } a system) := by
    rw [queueWaitStep, if_pos hdue, hstep, Option.map_some]
  have hs := queueWaitStep_timely s (.tick clock) _ h htick
  exact ⟨[.tick clock, .queue a], _, Runs.run_cons.mpr ⟨_, htick, Runs.run_cons.mpr ⟨_, hsection, rfl⟩⟩,
    queueWaitStep_timely _ (.queue a) _ hs hsection, rfl⟩

end Timely

/-! ## Any run -/

def QueueWaits.start (clock : Timespec) (system : QueueSystem) : QueueWaits where
  system
  clock

theorem start_calls {clock : Timespec} (hclock : clock.Normal) (itemSize queueSize : UInt32)
    (fresh : ℕ → UInt8) (threads : ℕ) :
    (QueueWaits.start clock (.start itemSize queueSize fresh threads)).Timely where
  clock := hclock
  calls i buffer timeoutMs status hi := by
    exact QueueThread.noConfusion (List.eq_of_mem_replicate (List.mem_of_getElem? hi))
  finished _ h := absurd h List.not_mem_nil
  returns := rfl

/-- With the clock the queue has the same runs as without it. A receive that finds nothing leaves
the queue and its buffer as they are, and has a timeout of zero or has waited for all of it; one
with a negative timeout never does. One with a timeout of zero never waits. -/
theorem receives_in_time {clock : Timespec} (hclock : clock.Normal) (itemSize queueSize : UInt32)
    (fresh : ℕ → UInt8) (threads : ℕ) :
    let start : QueueSystem := .start itemSize queueSize fresh threads
    (∀ actions s, Runs.run queueWaitStep (.start clock start) actions = some s →
      (∃ bs, Runs.run queueStep start bs = some s.system) ∧
      s.finished.map TimedRecv.back = s.system.returns ∧ (∀ r ∈ s.finished, r.Timely) ∧
      ∀ buffer status, .receiving buffer 0 status ∉ s.system.threads) ∧
    ∀ bs system, Runs.run queueStep start bs = some system →
      ∃ actions s, Runs.run queueWaitStep (.start clock start) actions = some s ∧ s.system = system := by
  intro start
  have hstart : (QueueWaits.start clock start).Timely :=
    start_calls hclock itemSize queueSize fresh threads
  refine ⟨fun actions s hrun => ?_, fun bs system hrun => ?_⟩
  · have halong : Runs.Along queueWaitStep (fun _ _ => True) (.start clock start) actions :=
      Runs.along_true _ actions
    have hs : s.Timely := Runs.run_invariant QueueWaits.Timely
      (fun s a t hs _ => queueWaitStep_timely s a t hs) hstart halong hrun
    refine ⟨?_, hs.returns, hs.finished, fun buffer status hmem => ?_⟩
    · exact Runs.exists_abstract_run (fun _ => True) QueueWaits.system
        (fun _ _ _ _ _ hstep => ⟨trivial, queueWaitStep_system hstep⟩) trivial halong hrun
    · obtain ⟨i, hi⟩ := List.mem_iff_getElem?.mp hmem
      obtain ⟨call, -, hwaits⟩ := hs.calls i buffer 0 status hi
      exact hwaits.waits rfl
  · obtain ⟨actions, s, hactions, -, hs⟩ := Runs.exists_simulating_run
      (fun system s => QueueWaits.Timely s ∧ s.system = system)
      (fun system _ _ s hs hstep => hs.1.follows (hs.2.symm ▸ hstep)) ⟨hstart, rfl⟩ hrun
    exact ⟨actions, s, hactions, hs⟩

/-- A receive that times out on an empty queue. -/
def emptyHanded : List QueueAction := [.recv 0 [0] 100 [], .timeOut 0, .resume 0 []]

theorem receives_in_time_empty : ∃ actions s r,
    Runs.run queueWaitStep (.start ⟨7, 950000000⟩ (.start 1 2 (fun _ => 0) 1)) actions = some s ∧
    s.finished = [r] ∧ r.back.result = -1 ∧ r.Timely := by
  have hclock : Timespec.Normal ⟨7, 950000000⟩ := by decide
  obtain ⟨hruns, hfollows⟩ := receives_in_time hclock 1 2 (fun _ => 0) 1
  obtain ⟨actions, s, hrun, hsystem⟩ := hfollows emptyHanded _ rfl
  obtain ⟨-, hreturns, htimely, -⟩ := hruns actions s hrun
  rw [hsystem] at hreturns
  obtain ⟨r, hfinished, hback⟩ := List.map_eq_singleton_iff.mp hreturns
  refine ⟨actions, s, r, hrun, hfinished, by rw [hback], htimely r ?_⟩
  rw [hfinished]
  exact List.mem_singleton_self r

end MlinkDevice
