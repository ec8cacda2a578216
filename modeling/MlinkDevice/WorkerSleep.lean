import MlinkDevice.BackgroundSched

/-!
# The sleep of the worker

`worker_main` waits on a condition variable that a post and the stop of `bg_sched_destroy`
signal. It does not sleep over a task or over the stop, so all that was accepted gets done.
-/

open MlinkDevice.LinkedQueue

namespace MlinkDevice

variable {T : Type}

/-! ## The steps -/

/-- The scheduler, and whether its worker sleeps in `pthread_cond_wait`. -/
structure SleepSystem (T : Type) where
  system : SchedSystem T := {}
  asleep : Bool := false

/-- `wake` is a wait that returns without a signal. -/
inductive SleepAction (T : Type) where
  | step (action : SchedAction T)
  | sleep
  | wake

/-- The section ends with `pthread_cond_signal` or `pthread_cond_broadcast`. -/
def SchedAction.signals (s : SchedSystem T) : SchedAction T → Bool
  | .post fn node => (bgSchedPost s.sched fn node).1 = 0
  | .stop => true
  | _ => false

/-- The steps of the worker after its wait. -/
def SchedAction.afterWait : SchedAction T → Bool
  | .take | .exit => true
  | _ => false

def sleepStep (s : SleepSystem T) : SleepAction T → Option (SleepSystem T)
  | .step action =>
    if s.asleep && action.afterWait then none
    else (schedStep s.system action).map fun system =>
      { system, asleep := s.asleep && !action.signals s.system }
  | .sleep =>
    if s.system.worker = .waiting ∧ s.asleep = false ∧ s.system.sched.queue.head = none ∧
        s.system.sched.running = true then some { s with asleep := true }
    else none
  | .wake => if s.asleep then some { s with asleep := false } else none

/-- Every post comes before the stop. -/
def SleepOrderly (s : SleepSystem T) : SleepAction T → Prop
  | .step action => Orderly s.system action
  | _ => True

/-- What the scheduler's own threads do, once the destroyer has said that it stops. -/
def SleepAction.internal : SleepAction T → Bool
  | .step (.post _ _) | .step .stop | .wake => false
  | _ => true

/-! ## The invariant -/

structure SleepSystem.Watchful (s : SleepSystem T) (nodes : List (Addr × T)) : Prop where
  holds : s.system.Holds nodes
  asleep : s.asleep = true → s.system.worker = .waiting ∧ s.system.sched.queue.head = none ∧
    s.system.sched.running = true

/-- All that was accepted has run, and the worker sleeps or the scheduler is gone. -/
structure SleepSystem.Settled (s : SleepSystem T) : Prop where
  ran : s.system.ran = s.system.accepted
  rests : (s.system.destroyer = .idle ∧ s.asleep = true) ∨ s.system.destroyer = .freed

theorem sleep_start : ({} : SleepSystem T).Watchful [] := ⟨create_holds, fun h => Bool.noConfusion h⟩

section Steps

variable {s t : SleepSystem T} {nodes : List (Addr × T)}

theorem sleepStep_step {action : SchedAction T} (hstep : sleepStep s (.step action) = some t) :
    (s.asleep = true → action.afterWait = false) ∧ ∃ system,
      schedStep s.system action = some system ∧
      t = { system, asleep := s.asleep && !action.signals s.system } := by
  obtain ⟨hwait, hstep⟩ := Option.ite_none_left_eq_some.mp hstep
  obtain ⟨system, hsystem, rfl⟩ := Option.map_eq_some_iff.mp hstep
  refine ⟨fun hasleep => ?_, system, hsystem, rfl⟩
  rw [hasleep, Bool.true_and] at hwait
  exact Bool.eq_false_iff.mpr hwait

theorem SleepSystem.Watchful.asleep_step (h : s.Watchful nodes) (hasleep : s.asleep = true)
    {action : SchedAction T} (hwait : action.afterWait = false)
    (hsignals : action.signals s.system = false) {system : SchedSystem T}
    (hstep : schedStep s.system action = some system) : system = s.system := by
  obtain ⟨hworker, -, hrunning⟩ := h.asleep hasleep
  have hidle := h.holds.running.mp hrunning
  cases action with
  | post fn node =>
    obtain ⟨-, hstep⟩ := Option.ite_none_left_eq_some.mp hstep
    obtain rfl := Option.some.inj hstep
    exact if_pos (of_decide_eq_false hsignals)
  | take => exact Bool.noConfusion hwait
  | exit => exact Bool.noConfusion hwait
  | stop => exact Bool.noConfusion hsignals
  | _ => simp [schedStep, hworker, hidle] at hstep

/-- **Step.** The worker only sleeps while there is nothing to do. -/
theorem sleepStep_watchful (s : SleepSystem T) (a : SleepAction T) (t : SleepSystem T)
    (h : ∃ nodes, s.Watchful nodes) (ha : SleepOrderly s a) (hstep : sleepStep s a = some t) :
    ∃ nodes, t.Watchful nodes := by
  obtain ⟨nodes, h⟩ := h
  cases a with
  | step action =>
    obtain ⟨hwait, system, hsystem, rfl⟩ := sleepStep_step hstep
    obtain ⟨nodes', hholds⟩ := schedStep_consistent s.system action system ⟨nodes, h.holds⟩
      (ha.mayPost ⟨nodes, h.holds⟩) hsystem
    refine ⟨nodes', hholds, fun hasleep => ?_⟩
    obtain ⟨hasleep, hsignals⟩ := (Bool.and_eq_true _ _).mp hasleep
    have hsignals : action.signals s.system = false := by simpa using hsignals
    dsimp only
    rw [h.asleep_step hasleep (hwait hasleep) hsignals hsystem]
    exact h.asleep hasleep
  | sleep =>
    obtain ⟨⟨hworker, -, hhead, hrunning⟩, hstep⟩ := Option.ite_none_right_eq_some.mp hstep
    obtain rfl := Option.some.inj hstep
    exact ⟨nodes, h.holds, fun _ => ⟨hworker, hhead, hrunning⟩⟩
  | wake =>
    obtain ⟨-, hstep⟩ := Option.ite_none_right_eq_some.mp hstep
    obtain rfl := Option.some.inj hstep
    exact ⟨nodes, h.holds, fun h => Bool.noConfusion h⟩

end Steps

/-! ## What is left to do -/

/-- Where the worker is between a task and its next sleep. -/
def Worker.steps (asleep : Bool) : Worker → ℕ
  | .waiting => if asleep then 0 else 1
  | .running _ => 3
  | .finished => 2
  | .exited => 0

def Destroyer.steps : Destroyer → ℕ
  | .idle => 0
  | .stopped => 3
  | .joined => 2
  | .cleaned => 1
  | .freed => 0

def SleepSystem.work (s : SleepSystem T) : ℕ :=
  4 * s.system.sched.pending + s.system.worker.steps s.asleep + s.system.destroyer.steps

theorem Worker.steps_le (w : Worker) (asleep : Bool) : w.steps asleep ≤ 3 := by
  cases w <;> cases asleep <;> simp [Worker.steps]

theorem SleepSystem.work_le (s : SleepSystem T) : s.work ≤ 4 * s.system.sched.pending + 6 := by
  have hworker := s.system.worker.steps_le s.asleep
  have hdestroyer : s.system.destroyer.steps ≤ 3 := by cases s.system.destroyer <;> decide
  unfold SleepSystem.work
  omega

section Work

variable {s t : SleepSystem T} {nodes : List (Addr × T)}

theorem workerTake_running {s : Sched T} {taken : Addr × Sched T} (h : workerTake s = some taken) :
    taken.2.running = s.running := by
  obtain ⟨popped, -, rfl⟩ := Option.map_eq_some_iff.mp h
  rfl

theorem awake_of_afterWait {asleep : Bool} {action : SchedAction T} (haction : action.afterWait = true)
    (hwait : asleep = true → action.afterWait = false) : asleep = false := by
  cases asleep with
  | false => rfl
  | true => exact absurd (haction.symm.trans (hwait rfl)) Bool.noConfusion

/-- **Step.** Every step of the scheduler's own threads leaves them less to do. -/
theorem sleepStep_work (h : s.Watchful nodes) {a : SleepAction T} (ha : a.internal = true)
    (hstep : sleepStep s a = some t) : t.system.accepted = s.system.accepted ∧
    t.system.sched.running = s.system.sched.running ∧ t.work < s.work := by
  cases a with
  | wake => exact Bool.noConfusion ha
  | sleep =>
    obtain ⟨⟨hworker, hawake, -⟩, hstep⟩ := Option.ite_none_right_eq_some.mp hstep
    obtain rfl := Option.some.inj hstep
    refine ⟨rfl, rfl, ?_⟩
    simp [SleepSystem.work, hworker, hawake, Worker.steps]
  | step action =>
    obtain ⟨hwait, system, hsystem, rfl⟩ := sleepStep_step hstep
    unfold SleepSystem.work
    cases action with
    | post => exact Bool.noConfusion ha
    | stop => exact Bool.noConfusion ha
    | take =>
      have hawake := awake_of_afterWait rfl hwait
      obtain ⟨node, rest, rfl, hrest⟩ := h.holds.take hsystem
      have hpending := h.holds.pending
      have hfewer := hrest.pending
      obtain ⟨hwaiting, hsystem⟩ := Option.ite_none_right_eq_some.mp hsystem
      obtain ⟨taken, htaken, rfl⟩ := Option.map_eq_some_iff.mp hsystem
      rw [List.length_cons] at hpending
      refine ⟨rfl, workerTake_running htaken, ?_⟩
      simp only [hwaiting, hawake, Worker.steps, Bool.false_eq_true, if_false] at hfewer ⊢
      omega
    | exit =>
      have hawake := awake_of_afterWait rfl hwait
      obtain ⟨⟨hworker, -⟩, hsystem⟩ := Option.ite_none_right_eq_some.mp hsystem
      obtain rfl := Option.some.inj hsystem
      refine ⟨rfl, rfl, ?_⟩
      simp [hworker, hawake, Worker.steps]
    | call =>
      obtain ⟨task, node, hworker, -, rfl⟩ := schedStep_call hsystem
      refine ⟨rfl, rfl, ?_⟩
      simp [hworker, Worker.steps]
    | account =>
      obtain ⟨hworker, hsystem⟩ := Option.ite_none_right_eq_some.mp hsystem
      obtain rfl := Option.some.inj hsystem
      refine ⟨rfl, rfl, ?_⟩
      simp only [hworker, Worker.steps]
      split <;> omega
    | join =>
      obtain ⟨⟨hstopped, -⟩, hsystem⟩ := Option.ite_none_right_eq_some.mp hsystem
      obtain rfl := Option.some.inj hsystem
      refine ⟨rfl, rfl, ?_⟩
      simp [hstopped, Destroyer.steps, SchedAction.signals]
    | cleanup addrs =>
      obtain ⟨hjoined, hsystem⟩ := Option.ite_none_right_eq_some.mp hsystem
      obtain ⟨heap, -, rfl⟩ := Option.map_eq_some_iff.mp hsystem
      refine ⟨rfl, rfl, ?_⟩
      simp [hjoined, Destroyer.steps, SchedAction.signals]
    | free =>
      obtain ⟨hcleaned, hsystem⟩ := Option.ite_none_right_eq_some.mp hsystem
      obtain rfl := Option.some.inj hsystem
      refine ⟨rfl, rfl, ?_⟩
      simp [hcleaned, Destroyer.steps, SchedAction.signals]

theorem sleepStep_isSome {action : SchedAction T} (hawake : s.asleep = true → action.afterWait = false)
    (h : (schedStep s.system action).isSome) : (sleepStep s (.step action)).isSome := by
  have hwait : ¬(s.asleep && action.afterWait) = true := by
    rintro hboth
    obtain ⟨hasleep, hafter⟩ := (Bool.and_eq_true _ _).mp hboth
    exact absurd (hafter.symm.trans (hawake hasleep)) Bool.noConfusion
  rw [sleepStep, if_neg hwait, Option.isSome_map]
  exact h

theorem SleepSystem.Watchful.worker_next (h : s.Watchful nodes) :
    (s.system.worker = .waiting ∧ s.asleep = true) ∨ s.system.worker = .exited ∨
      ∃ a : SleepAction T, a.internal = true ∧ (sleepStep s a).isSome := by
  cases hworker : s.system.worker with
  | waiting =>
    cases hasleep : s.asleep with
    | true => exact .inl ⟨rfl, rfl⟩
    | false =>
      refine .inr (.inr ?_)
      have hawake {action : SchedAction T} : s.asleep = true → action.afterWait = false :=
        fun h => absurd (hasleep.symm.trans h) Bool.noConfusion
      cases nodes with
      | nil =>
        have hhead : s.system.sched.queue.head = none := h.holds.queue.chain.head_eq
        cases hrunning : s.system.sched.running with
        | true =>
          refine ⟨.sleep, rfl, ?_⟩
          simp [sleepStep, hworker, hasleep, hhead, hrunning]
        | false =>
          refine ⟨.step .exit, rfl, sleepStep_isSome hawake ?_⟩
          simp [schedStep, hworker, hhead, hrunning]
      | cons node rest =>
        obtain ⟨queue, hpop, -⟩ := h.holds.queue.pop_cons
        refine ⟨.step .take, rfl, sleepStep_isSome hawake ?_⟩
        simp [schedStep, hworker, workerTake, hpop]
  | running task =>
    refine .inr (.inr ⟨.step .call, rfl, sleepStep_isSome (fun _ => rfl) ?_⟩)
    simpa [schedStep, hworker] using (h.holds.taken task hworker).1
  | finished =>
    refine .inr (.inr ⟨.step .account, rfl, sleepStep_isSome (fun _ => rfl) ?_⟩)
    simp [schedStep, hworker]
  | exited => exact .inr (.inl rfl)

theorem SleepSystem.Watchful.next (h : s.Watchful nodes) :
    s.Settled ∨ ∃ a t, SleepAction.internal a = true ∧ sleepStep s a = some t := by
  have hstep : ∀ a, SleepAction.internal a = true → (sleepStep s a).isSome →
      s.Settled ∨ ∃ a t, SleepAction.internal a = true ∧ sleepStep s a = some t := by
    intro a ha hsome
    obtain ⟨t, ht⟩ := Option.isSome_iff_exists.mp hsome
    exact .inr ⟨a, t, ha, ht⟩
  have horder := h.holds.order
  rcases h.worker_next with ⟨hworker, hasleep⟩ | hexited | ⟨a, ha, hsome⟩
  · obtain ⟨-, hhead, hrunning⟩ := h.asleep hasleep
    have hnil : nodes = [] := by
      rw [h.holds.queue.chain.head_eq, Option.map_eq_none_iff] at hhead
      exact List.head?_eq_none_iff.mp hhead
    refine .inl ⟨?_, .inl ⟨h.holds.running.mp hrunning, hasleep⟩⟩
    simpa [SchedSystem.current, hworker, hnil] using horder
  · obtain ⟨rfl, hstopped⟩ := h.holds.exited hexited
    cases hdestroyer : s.system.destroyer with
    | idle => exact absurd hdestroyer hstopped
    | stopped =>
      refine hstep (.step .join) rfl (sleepStep_isSome (fun _ => rfl) ?_)
      simp [schedStep, hdestroyer, hexited]
    | joined =>
      have hhead : s.system.sched.queue.head = none := h.holds.queue.chain.head_eq
      refine hstep (.step (.cleanup [])) rfl (sleepStep_isSome (fun _ => rfl) ?_)
      simp [schedStep, hdestroyer, hhead, freeAll]
    | cleaned =>
      refine hstep (.step .free) rfl (sleepStep_isSome (fun _ => rfl) ?_)
      simp [schedStep, hdestroyer]
    | freed =>
      refine .inl ⟨?_, .inr hdestroyer⟩
      simpa [SchedSystem.current, hexited] using horder
  · exact hstep a ha hsome

end Work

/-! ## Any run -/

/-- The same posts were accepted, and the stop was said or not as before. -/
def SleepSystem.Continues (s t : SleepSystem T) : Prop :=
  (∃ nodes, t.Watchful nodes) ∧ t.system.accepted = s.system.accepted ∧
    t.system.sched.running = s.system.sched.running

theorem sleepStep_continues (s t : SleepSystem T) (a : SleepAction T) (u : SleepSystem T)
    (h : s.Continues t) (ha : a.internal = true) (hstep : sleepStep t a = some u) :
    s.Continues u ∧ u.work < t.work := by
  obtain ⟨⟨nodes, ht⟩, haccepted, hrunning⟩ := h
  have horderly : SleepOrderly t a := by
    rcases a with (_ | _) | _ <;> trivial
  obtain ⟨haccepted', hrunning', hless⟩ := sleepStep_work ht ha hstep
  refine ⟨⟨sleepStep_watchful t a u ⟨nodes, ht⟩ horderly hstep, ?_, ?_⟩, hless⟩
  · exact haccepted'.trans haccepted
  · exact hrunning'.trans hrunning

/-- The threads of the scheduler go from one state to the other on their own. -/
def SleepSystem.GoesOn (s : SleepSystem T) (more : List (SleepAction T)) (t : SleepSystem T) : Prop :=
  (∀ a ∈ more, a.internal = true) ∧ Runs.run sleepStep s more = some t

/-- All that was accepted has run, and the scheduler is gone if it was told to stop. -/
def SleepSystem.Done (s t : SleepSystem T) : Prop :=
  t.system.ran = s.system.accepted ∧
    if s.system.destroyer = .idle then t.asleep = true else t.system.destroyer = .freed

theorem SleepSystem.Continues.done {s t : SleepSystem T} (hs : ∃ nodes, s.Watchful nodes)
    (h : s.Continues t) (ht : t.Settled) : s.Done t := by
  obtain ⟨nodes, hs⟩ := hs
  obtain ⟨⟨nodes', hwatchful⟩, haccepted, hrunning⟩ := h
  refine ⟨ht.ran.trans haccepted, ?_⟩
  have hidle : s.system.destroyer = .idle ↔ t.system.destroyer = .idle := by
    rw [← hs.holds.running, ← hwatchful.holds.running, hrunning]
  split
  · rename_i hs
    rcases ht.rests with ⟨-, hasleep⟩ | hfreed
    · exact hasleep
    · exact absurd ((hidle.mp hs).symm.trans hfreed) Destroyer.noConfusion
  · rename_i hs
    exact ht.rests.resolve_left fun h => hs (hidle.mpr h.1)

/-- The worker never sleeps over a task or over the stop. From any point of a run on, whether or
not it was told to stop, the scheduler takes a bounded number of steps of its own. It only stands
still when every accepted post has run, asleep or, after a stop, freed, and it can get there. -/
theorem scheduler_settles (actions : List (SleepAction T)) (s : SleepSystem T)
    (horderly : Runs.Along sleepStep SleepOrderly {} actions)
    (hrun : Runs.run sleepStep {} actions = some s) :
    (s.asleep = true → s.system.sched.queue.head = none ∧ s.system.sched.running = true) ∧
    (∀ more t, s.GoesOn more t → more.length ≤ 4 * s.system.sched.pending + 6 ∧
      ((∀ a, SleepAction.internal a = true → sleepStep t a = none) → s.Done t)) ∧
    ∃ more t, s.GoesOn more t ∧ s.Done t := by
  have hs : ∃ nodes, s.Watchful nodes := Runs.run_invariant (fun s : SleepSystem T => ∃ nodes, s.Watchful nodes)
    sleepStep_watchful ⟨[], sleep_start⟩ horderly hrun
  have hcontinues : s.Continues s := ⟨hs, rfl, rfl⟩
  obtain ⟨hbound, more, t, halong, hmore, ht, hsettled⟩ := Runs.settles (sleepStep_continues s)
    (fun t (ht : s.Continues t) => ht.1.elim fun _ h => h.next) hcontinues
  refine ⟨fun hasleep => ?_, fun more t hmore => ?_, more, t, ⟨?_, hmore⟩, ht.done hs hsettled⟩
  · obtain ⟨nodes, hs⟩ := hs
    exact (hs.asleep hasleep).2
  · obtain ⟨hlength, ht, hfinal⟩ := hbound more t ((Runs.along_iff_forall hmore.2).mpr hmore.1) hmore.2
    exact ⟨hlength.trans s.work_le, fun hstuck => ht.done hs (hfinal hstuck)⟩
  · exact (Runs.along_iff_forall hmore).mp halong

/-- A worker that sleeps, a post that wakes it, and the stop while it still runs. -/
def sleepyRun : List (SleepAction ℕ) :=
  [.sleep, .step (.post (some 5) (some 0)), .step .take, .step .stop]

theorem scheduler_settles_sleepy : ∃ s more t,
    Runs.run sleepStep ({} : SleepSystem ℕ) sleepyRun = some s ∧ s.GoesOn more t ∧
      t.system.ran = [5] ∧ t.system.destroyer = .freed := by
  have hrun : (Runs.run sleepStep ({} : SleepSystem ℕ) sleepyRun).map
      (fun s => (s.system.accepted, s.system.destroyer)) = some ([5], .stopped) := by rfl
  obtain ⟨s, hs, hend⟩ := Option.map_eq_some_iff.mp hrun
  have horderly : Runs.Along sleepStep SleepOrderly ({} : SleepSystem ℕ) sleepyRun := by
    refine ⟨trivial, ?_⟩
    rintro _ ⟨⟩
    exact ⟨rfl, fun _ _ => ⟨trivial, fun _ _ => ⟨trivial, fun _ _ => trivial⟩⟩⟩
  obtain ⟨-, -, more, t, hmore, hran, hfreed⟩ := scheduler_settles sleepyRun s horderly hs
  obtain ⟨haccepted, hstopped⟩ := Prod.mk.inj hend
  rw [hstopped, if_neg Destroyer.noConfusion] at hfreed
  exact ⟨s, more, t, hs, hmore, hran.trans haccepted, hfreed⟩

end MlinkDevice
