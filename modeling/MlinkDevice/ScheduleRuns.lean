import MlinkDevice.Schedule

/-!
# Every task once, if there are enough

A thread that has passed the loop test of `schedule_run` takes the head of the list without
looking again. This is safe as long as there is a task for each thread that passed the test.
-/

open MlinkDevice.LinkedQueue

namespace MlinkDevice

variable {T : Type}

/-! ## The list without a pointer to its end -/

/-- The list with the pointer to its last node that the schedule does not keep. -/
def Schedule.queue (s : Schedule T) (nodes : List (Addr × T)) : Queue T :=
  ⟨s.heap, s.taskQueue, lastAddr nodes⟩

theorem schedulePost_eq {s : Schedule T} {nodes : List (Addr × T)} {fuel : ℕ} {a : Addr}
    (h : (s.queue nodes).Holds nodes) (hfresh : s.heap a = none) (hfuel : nodes.length ≤ fuel)
    (task : T) : schedulePost s (some task) (some a) fuel = some (0, { s with
      heap := ((s.queue nodes).push a task).heap
      taskQueue := ((s.queue nodes).push a task).head }) := by
  have hnew : a ∉ nodes.map (·.1) := by
    intro hmem
    have halive := h.chain.mem hmem
    rw [show (s.queue nodes).heap a = none from hfresh] at halive
    exact Bool.noConfusion halive
  have hhead : s.taskQueue = nodes.head?.map (·.1) := h.chain.head_eq
  rcases nodes with _ | ⟨node, rest⟩
  · rw [List.head?_nil, Option.map_none] at hhead
    simp only [schedulePost, hhead]
    rfl
  · rw [List.head?_cons, Option.map_some] at hhead
    have hchain := h.chain.update hnew (some ⟨task, none⟩)
    rw [show (s.queue (node :: rest)).head = some node.1 from hhead] at hchain
    have hwalk := hchain.findTail hfuel
    rcases hlast : lastAddr (node :: rest) with _ | last
    · exact absurd (lastAddr_eq_none.mp hlast) (List.cons_ne_nil _ _)
    · rw [hlast] at hwalk
      simp only [schedulePost, hhead, Schedule.queue, Queue.push, hlast] at hwalk ⊢
      rw [hwalk]
      rfl

theorem scheduleTake_eq {s : Schedule T} {a : Addr} {x : T} {next : Option Addr}
    (hrunning : s.running = true) (hhead : s.taskQueue = some a)
    (hnode : s.heap a = some ⟨x, next⟩) :
    scheduleTake s = some (some a, { s with taskQueue := next }) := by
  rw [scheduleTake, if_neg (by simp [hrunning]), hhead, Option.bind_some, hnode]
  rfl

/-! ## The invariant -/

/-- The list holds those nodes, threads hold others, and no task is lost, doubled or out of
order. -/
structure ScheduleSystem.Holds (s : ScheduleSystem T) (nodes : List (Addr × T)) : Prop where
  queue : (s.sched.queue nodes).Holds nodes
  nodup : s.tasks.Nodup
  apart : ∀ a ∈ s.tasks, (s.sched.heap a).isSome ∧ a ∉ nodes.map (·.1)
  running : s.sched.running = true
  posted : s.posted = s.taken ++ nodes.map (·.2)
  once : s.taken.Perm (s.held ++ s.ran)
  fault : s.fault = false

/-- There is a task for each thread that passed the test. -/
def ScheduleSystem.Safe (s : ScheduleSystem T) : Prop :=
  ∃ nodes, s.Holds nodes ∧ s.tested ≤ nodes.length

/-- A thread that passes the test leaves a task for each that passed it before. -/
def Enough (s : ScheduleSystem T) : ScheduleAction T → Prop
  | .test i => s.runners[i]? = some .testing → scheduleTest s.sched = true →
    s.taken.length + s.tested < s.posted.length
  | _ => True

instance (s : ScheduleSystem T) : DecidablePred (Enough s)
  | .test _ => inferInstanceAs (Decidable (_ → _))
  | .post _ _ | .enter _ | .take _ | .call _ | .free _ => .isTrue trivial

theorem Runner.item_eq_none {r : Runner} (h : r.task = none) (heap : Heap T) :
    r.item heap = none := by
  cases r with
  | holding => exact absurd h (Option.some_ne_none _)
  | _ => rfl

theorem filterMap_item_congr {heap heap' : Heap T} {runners : List Runner}
    (h : ∀ a ∈ runners.filterMap Runner.task, heap' a = heap a) :
    runners.filterMap (Runner.item heap') = runners.filterMap (Runner.item heap) := by
  refine List.filterMap_congr fun r hr => ?_
  cases r with
  | holding a => simp only [Runner.item, h a (List.mem_filterMap.mpr ⟨_, hr, rfl⟩)]
  | _ => rfl

theorem ScheduleSystem.start_holds (runners : ℕ) :
    (ScheduleSystem.start runners : ScheduleSystem T).Holds [] := by
  have hidle {β : Type} (f : Runner → Option β) (hf : f .idle = none) :
      (List.replicate runners Runner.idle).filterMap f = [] := by
    refine List.filterMap_eq_nil_iff.mpr fun r hr => ?_
    rw [List.eq_of_mem_replicate hr, hf]
  have htasks : (ScheduleSystem.start runners : ScheduleSystem T).tasks = [] := hidle _ rfl
  have hheld : (ScheduleSystem.start runners : ScheduleSystem T).held = [] := hidle _ rfl
  refine ⟨holds_empty, ?_, ?_, rfl, rfl, ?_, rfl⟩
  · rw [htasks]
    exact List.nodup_nil
  · rw [htasks]
    exact fun a ha => absurd ha List.not_mem_nil
  · rw [hheld]
    exact List.Perm.nil

theorem ScheduleSystem.start_safe (runners : ℕ) :
    (ScheduleSystem.start runners : ScheduleSystem T).Safe := by
  refine ⟨[], start_holds runners, Nat.le_zero.mpr (List.countP_eq_zero.mpr fun r hr => ?_)⟩
  rw [List.eq_of_mem_replicate hr]
  decide

/-! ## Steps -/

section Steps

variable {s t : ScheduleSystem T} {nodes : List (Addr × T)} {r r' : Runner} {i : ℕ} {a : Addr}

theorem mem_tasks (hi : s.runners[i]? = some r) (hr : r.task = some a) : a ∈ s.tasks :=
  List.mem_filterMap.mpr ⟨r, List.mem_of_getElem? hi, hr⟩

theorem tested_of_set (hi : s.runners[i]? = some r) (ht : t.runners = s.runners.set i r') :
    t.tested + (decide (r = .tested)).toNat = s.tested + (decide (r' = .tested)).toNat := by
  rw [ScheduleSystem.tested, ht]
  exact Threads.countP_set hi r'

theorem tested_le (hi : s.runners[i]? = some r) (ht : t.runners = s.runners.set i r')
    (hr' : r' ≠ .tested) : t.tested ≤ s.tested := by
  have hcount := tested_of_set hi ht
  rw [decide_eq_false hr', Bool.toNat_false] at hcount
  omega

theorem ScheduleSystem.Holds.move (h : s.Holds nodes) (hi : s.runners[i]? = some r)
    (hr : r.task = none) (hr' : r'.task = none) : (s.move i r').Holds nodes := by
  have htasks : (s.move i r').tasks.Perm s.tasks := by
    have hperm := Threads.perm_filterMap_set Runner.task hi r'
    rw [hr, hr'] at hperm
    exact hperm
  have hheld : (s.move i r').held.Perm s.held := by
    have hperm := Threads.perm_filterMap_set (Runner.item s.sched.heap) hi r'
    rw [Runner.item_eq_none hr, Runner.item_eq_none hr'] at hperm
    exact hperm
  exact ⟨h.queue, htasks.nodup_iff.mpr h.nodup, fun a ha => h.apart a (htasks.mem_iff.mp ha),
    h.running, h.posted, h.once.trans (hheld.symm.append_right _), h.fault⟩

theorem ScheduleSystem.Holds.post (h : s.Holds nodes) {fn : Option T} {node : Option Addr}
    (hstep : scheduleStep s (.post fn node) = some t) :
    t.runners = s.runners ∧ ∃ more, t.Holds (nodes ++ more) := by
  obtain ⟨hfresh, hstep⟩ := Option.ite_none_left_eq_some.mp hstep
  have hlength : nodes.length ≤ s.posted.length := by
    rw [h.posted, List.length_append, List.length_map]
    omega
  rcases fn with _ | task
  · obtain rfl := Option.some.inj hstep
    refine ⟨rfl, [], ?_⟩
    simpa using h
  rcases node with _ | a
  · obtain rfl := Option.some.inj hstep
    refine ⟨rfl, [], ?_⟩
    simpa using h
  have hfresh : s.sched.heap a = none := by simpa using hfresh
  rw [schedulePost_eq h.queue hfresh hlength] at hstep
  obtain rfl := Option.some.inj hstep
  have hsame (b : Addr) (hb : b ∈ s.tasks) :
      ((s.sched.queue nodes).push a task).heap b = s.sched.heap b := by
    obtain ⟨halive, hnot⟩ := h.apart b hb
    refine Queue.push_heap_of_ne h.queue task ?_ hnot
    rintro rfl
    rw [hfresh] at halive
    exact Bool.noConfusion halive
  refine ⟨rfl, [(a, task)], ?_, h.nodup, fun b hb => ?_, h.running, ?_, ?_, h.fault⟩
  · have hpush := h.queue.push hfresh task
    exact ⟨hpush.chain, rfl, hpush.nodup⟩
  · obtain ⟨halive, hnot⟩ := h.apart b hb
    refine ⟨(congrArg Option.isSome (hsame b hb)).trans halive, ?_⟩
    rw [List.map_append, List.mem_append, not_or]
    refine ⟨hnot, fun hmem => ?_⟩
    obtain rfl : b = a := by simpa using hmem
    rw [hfresh] at halive
    exact Bool.noConfusion halive
  · dsimp only
    rw [h.posted]
    simp
  · rw [ScheduleSystem.held, filterMap_item_congr hsame]
    exact h.once

theorem ScheduleSystem.Holds.take (h : s.Holds nodes) (hi : s.runners[i]? = some .tested)
    (hstep : scheduleStep s (.take i) = some t) : (nodes = [] ∧ t.fault = true) ∨
      ∃ a x rest, nodes = (a, x) :: rest ∧ t.Holds rest ∧
        t.runners = s.runners.set i (.holding a) := by
  simp only [scheduleStep, if_pos hi] at hstep
  rcases nodes with _ | ⟨⟨a, x⟩, rest⟩
  · have htake : scheduleTake s.sched = none := by
      rw [scheduleTake, h.running, if_neg Bool.noConfusion,
        show s.sched.taskQueue = none from h.queue.chain]
      rfl
    rw [htake] at hstep
    obtain rfl := Option.some.inj hstep
    exact .inl ⟨rfl, rfl⟩
  · obtain ⟨hhead, next, hnode, hrest⟩ := h.queue.chain
    have hnode : s.sched.heap a = some ⟨x, next⟩ := hnode
    simp only [scheduleTake_eq h.running hhead hnode, hnode] at hstep
    obtain rfl := Option.some.inj hstep
    have hnodup := List.nodup_cons.mp h.queue.nodup
    have htasks : ((s.runners.set i (.holding a)).filterMap Runner.task).Perm (a :: s.tasks) :=
      Threads.perm_filterMap_set Runner.task hi (.holding a)
    have hheld : ((s.runners.set i (.holding a)).filterMap (Runner.item s.sched.heap)).Perm
        (x :: s.held) := by
      have hperm := Threads.perm_filterMap_set (Runner.item s.sched.heap) hi (.holding a)
      rw [show Runner.item s.sched.heap (.holding a) = some x by simp [Runner.item, hnode]] at hperm
      exact hperm
    refine .inr ⟨a, x, rest, rfl, ⟨⟨hrest, rfl, hnodup.2⟩, ?_, ?_, h.running, ?_, ?_, h.fault⟩, rfl⟩
    · refine htasks.nodup_iff.mpr (List.nodup_cons.mpr ⟨fun ha => ?_, h.nodup⟩)
      exact (h.apart a ha).2 List.mem_cons_self
    · intro b hb
      rcases List.mem_cons.mp (htasks.mem_iff.mp hb) with rfl | hb
      · refine ⟨?_, hnodup.1⟩
        dsimp only
        rw [hnode]
        rfl
      · obtain ⟨halive, hnot⟩ := h.apart b hb
        exact ⟨halive, fun hmem => hnot (List.mem_cons_of_mem _ hmem)⟩
    · exact h.posted.trans (by simp)
    · exact (List.perm_append_singleton x s.taken).trans
        ((h.once.cons x).trans (hheld.symm.append_right s.ran))

theorem call_holding (hstep : scheduleStep s (.call i) = some t) :
    ∃ a, s.runners[i]? = some (.holding a) := by
  simp only [scheduleStep] at hstep
  split at hstep
  case h_1 a hi => exact ⟨a, hi⟩
  case h_2 => exact absurd hstep.symm (Option.some_ne_none t)

theorem free_called (hstep : scheduleStep s (.free i) = some t) :
    ∃ a, s.runners[i]? = some (.called a) := by
  simp only [scheduleStep] at hstep
  split at hstep
  case h_1 a hi => exact ⟨a, hi⟩
  case h_2 => exact absurd hstep.symm (Option.some_ne_none t)

theorem ScheduleSystem.Holds.call (h : s.Holds nodes) (hi : s.runners[i]? = some (.holding a))
    (hstep : scheduleStep s (.call i) = some t) :
    t.Holds nodes ∧ t.runners = s.runners.set i (.called a) := by
  obtain ⟨⟨x, next⟩, hnode⟩ := Option.isSome_iff_exists.mp (h.apart a (mem_tasks hi rfl)).1
  simp only [scheduleStep, hi, hnode] at hstep
  obtain rfl := Option.some.inj hstep
  have htasks : ((s.runners.set i (.called a)).filterMap Runner.task).Perm s.tasks :=
    (Threads.perm_filterMap_set Runner.task hi (.called a)).cons_inv
  have hheld : (x :: (s.runners.set i (.called a)).filterMap (Runner.item s.sched.heap)).Perm
      s.held := by
    have hperm := Threads.perm_filterMap_set (Runner.item s.sched.heap) hi (.called a)
    rw [show Runner.item s.sched.heap (.holding a) = some x by simp [Runner.item, hnode]] at hperm
    exact hperm
  refine ⟨⟨h.queue, htasks.nodup_iff.mpr h.nodup, fun b hb => h.apart b (htasks.mem_iff.mp hb),
    h.running, h.posted, ?_, h.fault⟩, rfl⟩
  exact h.once.trans ((hheld.symm.append_right _).trans
    (List.perm_middle.symm.trans ((List.perm_append_singleton x s.ran).symm.append_left _)))

theorem ScheduleSystem.Holds.free (h : s.Holds nodes) (hi : s.runners[i]? = some (.called a))
    (hstep : scheduleStep s (.free i) = some t) :
    t.Holds nodes ∧ t.runners = s.runners.set i .testing := by
  simp only [scheduleStep, hi] at hstep
  obtain rfl := Option.some.inj hstep
  have htasks : (a :: (s.runners.set i .testing).filterMap Runner.task).Perm s.tasks :=
    Threads.perm_filterMap_set Runner.task hi .testing
  have hheld : ((s.runners.set i .testing).filterMap (Runner.item s.sched.heap)).Perm s.held :=
    Threads.perm_filterMap_set (Runner.item s.sched.heap) hi .testing
  have hnodup := List.nodup_cons.mp (htasks.nodup_iff.mpr h.nodup)
  have hsame (b : Addr) (hb : b ∈ (s.runners.set i .testing).filterMap Runner.task) :
      Function.update s.sched.heap a none b = s.sched.heap b := by
    refine Function.update_of_ne ?_ _ _
    rintro rfl
    exact hnodup.1 hb
  refine ⟨⟨h.queue.free (h.apart a (mem_tasks hi rfl)).2, hnodup.2, fun b hb => ?_, h.running,
    h.posted, ?_, h.fault⟩, rfl⟩
  · obtain ⟨halive, hnot⟩ := h.apart b (htasks.mem_iff.mp (List.mem_cons_of_mem a hb))
    exact ⟨(congrArg Option.isSome (hsame b hb)).trans halive, hnot⟩
  · dsimp only [ScheduleSystem.held, ScheduleSystem.move]
    rw [filterMap_item_congr hsame]
    exact h.once.trans (hheld.symm.append_right _)

/-- **Step.** While every test leaves enough tasks, there is one for each thread that takes. -/
theorem scheduleStep_safe (s : ScheduleSystem T) (a : ScheduleAction T) (t : ScheduleSystem T)
    (h : s.Safe) (henough : Enough s a) (hstep : scheduleStep s a = some t) : t.Safe := by
  obtain ⟨nodes, h, htested⟩ := h
  cases a with
  | post fn node =>
    obtain ⟨hrunners, more, ht⟩ := h.post hstep
    refine ⟨nodes ++ more, ht, ?_⟩
    rw [ScheduleSystem.tested, hrunners, List.length_append]
    exact htested.trans (Nat.le_add_right _ _)
  | enter i =>
    obtain ⟨hi, hstep⟩ := Option.ite_none_right_eq_some.mp hstep
    obtain rfl := Option.some.inj hstep
    exact ⟨nodes, h.move hi rfl rfl, (tested_le hi rfl (by decide)).trans htested⟩
  | test i =>
    obtain ⟨hi, hstep⟩ := Option.ite_none_right_eq_some.mp hstep
    obtain rfl := Option.some.inj hstep
    split_ifs with htest
    · have hroom := henough hi htest
      rw [h.posted, List.length_append, List.length_map] at hroom
      have hcount : (s.move i .tested).tested + 0 = s.tested + 1 :=
        tested_of_set (t := s.move i .tested) hi rfl
      exact ⟨nodes, h.move hi rfl rfl, by omega⟩
    · exact ⟨nodes, h.move hi rfl rfl, (tested_le hi rfl (by decide)).trans htested⟩
  | take i =>
    obtain ⟨hi, -⟩ := Option.ite_none_right_eq_some.mp hstep
    have hsome : 0 < s.tested := List.countP_pos_iff.mpr ⟨_, List.mem_of_getElem? hi, rfl⟩
    rcases h.take hi hstep with ⟨rfl, -⟩ | ⟨a, x, rest, rfl, ht, hrunners⟩
    · exact absurd htested (Nat.not_le_of_lt hsome)
    · have hcount : t.tested + 1 = s.tested + 0 := tested_of_set hi hrunners
      rw [List.length_cons] at htested
      exact ⟨rest, ht, by omega⟩
  | call i =>
    obtain ⟨a, hi⟩ := call_holding hstep
    obtain ⟨ht, hrunners⟩ := h.call hi hstep
    exact ⟨nodes, ht, (tested_le hi hrunners Runner.noConfusion).trans htested⟩
  | free i =>
    obtain ⟨a, hi⟩ := free_called hstep
    obtain ⟨ht, hrunners⟩ := h.free hi hstep
    exact ⟨nodes, ht, (tested_le hi hrunners (by decide)).trans htested⟩

theorem exists_take (h : 0 < s.tested) :
    ∃ i t, s.runners[i]? = some .tested ∧ scheduleStep s (.take i) = some t := by
  obtain ⟨r, hr, htested⟩ := List.countP_pos_iff.mp h
  obtain rfl : r = .tested := of_decide_eq_true htested
  obtain ⟨i, hi⟩ := List.mem_iff_getElem?.mp hr
  refine ⟨i, ?_⟩
  simp only [scheduleStep, if_pos hi]
  split <;> exact ⟨_, hi, rfl⟩

/-- **Takes.** With fewer tasks than threads that passed the test, their takes alone reach the
access without a task. -/
theorem ScheduleSystem.Holds.takes_fault (h : s.Holds nodes) (hfew : nodes.length < s.tested) :
    ∃ (takes : List ℕ) (t : ScheduleSystem T),
      Runs.run scheduleStep s (takes.map .take) = some t ∧ t.fault = true := by
  induction nodes generalizing s with
  | nil =>
    obtain ⟨i, t, hi, hstep⟩ := exists_take hfew
    rcases h.take hi hstep with ⟨-, hfault⟩ | ⟨a, x, rest, hnodes, -, -⟩
    · exact ⟨[i], t, Runs.run_cons.mpr ⟨t, hstep, rfl⟩, hfault⟩
    · exact absurd hnodes (List.cons_ne_nil _ _).symm
  | cons node rest ih =>
    obtain ⟨i, u, hi, hstep⟩ := exists_take (Nat.zero_lt_of_lt hfew)
    rcases h.take hi hstep with ⟨hnodes, -⟩ | ⟨a, x, rest, ⟨⟩, hu, hrunners⟩
    · exact absurd hnodes (List.cons_ne_nil _ _)
    · have hcount : u.tested + 1 = s.tested + 0 := tested_of_set hi hrunners
      rw [List.length_cons] at hfew
      obtain ⟨takes, t, hrun, hfault⟩ := ih hu (by omega)
      exact ⟨i :: takes, t, Runs.run_cons.mpr ⟨u, hstep, hrun⟩, hfault⟩

theorem ScheduleSystem.Holds.not_enough (h : s.Holds nodes) {a : ScheduleAction T}
    (hnot : ¬ Enough s a) :
    ∃ t, scheduleStep s a = some t ∧ t.Holds nodes ∧ nodes.length < t.tested := by
  cases a with
  | test i =>
    obtain ⟨hi, hnot⟩ := Classical.not_imp.mp hnot
    obtain ⟨htest, hfew⟩ := Classical.not_imp.mp hnot
    have hcount : (s.move i .tested).tested + 0 = s.tested + 1 :=
      tested_of_set (t := s.move i .tested) hi rfl
    rw [h.posted, List.length_append, List.length_map] at hfew
    refine ⟨s.move i .tested, ?_, h.move hi rfl rfl, by omega⟩
    rw [scheduleStep, if_pos hi, if_pos htest]
  | _ => exact absurd trivial hnot

end Steps

/-! ## Any run -/

/-- No step used a pointer to no node, the tasks were taken in the order in which they were
posted, each was run at most once, and all were when nobody is left and nothing to take. -/
structure ScheduleSystem.Good (s : ScheduleSystem T) : Prop where
  fault : s.fault = false
  order : ∃ nodes, Chain s.sched.heap s.sched.taskQueue nodes ∧
    s.posted = s.taken ++ nodes.map (·.2)
  once : ∃ held, s.taken.Perm (held ++ s.ran)
  all : (∀ r ∈ s.runners, r = .idle) → s.sched.taskQueue = none → s.ran.Perm s.posted

theorem ScheduleSystem.Safe.good {s : ScheduleSystem T} (h : s.Safe) : s.Good := by
  obtain ⟨nodes, h, -⟩ := h
  refine ⟨h.fault, ⟨nodes, h.queue.chain, h.posted⟩, ⟨s.held, h.once⟩, fun hidle hempty => ?_⟩
  have hheld : s.held = [] := by
    refine List.filterMap_eq_nil_iff.mpr fun r hr => ?_
    rw [hidle r hr]
    rfl
  have hnodes : nodes = [] := by
    have hhead : s.sched.taskQueue = nodes.head?.map (·.1) := h.queue.chain.head_eq
    rw [hempty] at hhead
    exact List.head?_eq_none_iff.mp (Option.map_eq_none_iff.mp hhead.symm)
  have honce := h.once
  rw [hheld, List.nil_append] at honce
  rw [h.posted, hnodes, List.map_nil, List.append_nil]
  exact honce.symm

/-- When every thread that passes the loop test leaves a task for each that passed it before,
the run stays good. When one does not, the takes of these threads can follow it, and one of
them finds no task. -/
theorem schedule_run_good (runners : ℕ) (actions : List (ScheduleAction T)) :
    (Runs.Along scheduleStep Enough (.start runners) actions →
      Runs.Always scheduleStep ScheduleSystem.Good (.start runners) actions) ∧
    (¬ Runs.Along scheduleStep Enough (.start runners) actions →
      ∃ before, before <+: actions ∧ ∃ (takes : List ℕ) (s : ScheduleSystem T),
        Runs.run scheduleStep (.start runners) (before ++ takes.map .take) = some s ∧
          s.fault = true) := by
  have hstart := ScheduleSystem.start_safe (T := T) runners
  refine ⟨Runs.always_of_along (fun _ => ScheduleSystem.Safe.good) scheduleStep_safe hstart, ?_⟩
  intro hfew
  obtain ⟨before, a, s, hinit, halong, hrun, hnot⟩ := Runs.exists_not_allowed hfew
  obtain ⟨nodes, h, -⟩ : s.Safe :=
    Runs.run_invariant ScheduleSystem.Safe scheduleStep_safe hstart halong hrun
  obtain ⟨t, hstep, ht, hless⟩ := h.not_enough hnot
  obtain ⟨takes, u, htakes, hfault⟩ := ht.takes_fault hless
  refine ⟨before ++ [a], hinit, takes, u, ?_, hfault⟩
  rw [List.append_assoc, Runs.run_append, hrun]
  exact Runs.run_cons.mpr ⟨t, hstep, htakes⟩

/-- Two threads pass the test for two tasks, and the second to pass it takes first. -/
def twoRunners : List (ScheduleAction ℕ) :=
  [.post (some 7) (some 0), .post (some 8) (some 1), .enter 0, .enter 1, .test 0, .test 1, .take 1,
    .take 0, .call 0, .call 1, .free 1, .free 0, .test 0, .test 1]

theorem schedule_run_good_two :
    Runs.Always scheduleStep ScheduleSystem.Good (.start 2) twoRunners :=
  (schedule_run_good 2 twoRunners).1 (by decide)

/-- Two threads pass the test for one task. -/
def twoTests : List (ScheduleAction ℕ) :=
  [.post (some 7) (some 0), .enter 0, .enter 1, .test 0, .test 1, .take 0, .take 1]

theorem take_without_task : ∃ s, Runs.run scheduleStep (.start 2) twoTests = some s ∧
    s.fault = true ∧ ¬ Runs.Always scheduleStep ScheduleSystem.Good (.start 2) twoTests := by
  refine ⟨_, rfl, rfl, fun h => ?_⟩
  exact Bool.noConfusion (h twoTests (List.prefix_refl _) _ rfl).fault

end MlinkDevice
