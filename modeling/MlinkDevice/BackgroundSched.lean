import MlinkDevice.LinkedQueue
import MlinkDevice.Runs

/-!
# The background scheduler

`background_sched.c`: the tasks that other threads post, the one worker that runs them, and
the shutdown. Each section under the mutex is one step, and so is each run of a callback.
-/

open MlinkDevice.LinkedQueue

namespace MlinkDevice

variable {T : Type}

/-- `struct sched` with the nodes of its queue. A task is a callback and its argument. -/
structure Sched (T : Type) where
  queue : Queue T
  running : Bool
  pending : ℕ
  active : ℕ

def bgSchedCreate : Sched T := { queue := .empty, running := true, pending := 0, active := 0 }

/-- `bg_sched_post`, where `node` is what `malloc` returns. -/
def bgSchedPost (s : Sched T) (fn : Option T) (node : Option Addr) : Int32 × Sched T :=
  match fn, node with
  | some task, some a => (0, { s with queue := s.queue.push a task, pending := s.pending + 1 })
  | _, _ => (-1, s)

/-- The first section of `worker_main`, when there is a task to take. -/
def workerTake (s : Sched T) : Option (Addr × Sched T) :=
  s.queue.pop.map fun taken =>
    (taken.1, { s with queue := taken.2, pending := s.pending - 1, active := s.active + 1 })

/-! ## The steps of the threads -/

inductive Worker where
  | waiting
  | running (task : Addr)
  | finished
  | exited
deriving DecidableEq

/-- Where the caller of `bg_sched_destroy` is. -/
inductive Destroyer where
  | idle
  | stopped
  | joined
  | cleaned
  | freed
deriving DecidableEq

/-- The scheduler and its threads, with the tasks that were accepted and those that ran, the
nodes that the final loop freed, and whether a post used the scheduler after its end. -/
structure SchedSystem (T : Type) where
  sched : Sched T := bgSchedCreate
  worker : Worker := .waiting
  destroyer : Destroyer := .idle
  accepted : List T := []
  ran : List T := []
  leftover : List Addr := []
  fault : Bool := false

inductive SchedAction (T : Type) where
  | post (fn : Option T) (node : Option Addr)
  | take
  | exit
  | call
  | account
  | stop
  | join
  | cleanup (nodes : List Addr)
  | free

/-- The steps of `worker_main`. -/
def SchedAction.byWorker : SchedAction T → Bool
  | .take | .exit | .call | .account => true
  | _ => false

def schedPost (s : SchedSystem T) (fn : Option T) (node : Option Addr) : SchedSystem T :=
  let posted := bgSchedPost s.sched fn node
  -- A refused post returns before it touches the scheduler.
  if posted.1 ≠ 0 then s
  else if s.destroyer = .freed then { s with fault := true }
  else { s with sched := posted.2, accepted := s.accepted ++ fn.toList }

def schedStep (s : SchedSystem T) : SchedAction T → Option (SchedSystem T)
  | .post fn node =>
    -- `malloc` returns no node that is in use.
    if node.any fun a => (s.sched.queue.heap a).isSome then none else some (schedPost s fn node)
  | .take =>
    if s.worker = .waiting then
      (workerTake s.sched).map fun taken =>
        { s with sched := taken.2, worker := .running taken.1 }
    else none
  | .exit =>
    if s.worker = .waiting ∧ s.sched.queue.head = none ∧ s.sched.running = false then
      some { s with worker := .exited }
    else none
  | .call =>
    match s.worker with
    | .running task =>
      (s.sched.queue.heap task).map fun node => { s with
        sched := { s.sched with queue := s.sched.queue.free task }
        worker := .finished
        ran := s.ran ++ [node.item] }
    | _ => none
  | .account =>
    if s.worker = .finished then
      some { s with sched := { s.sched with active := s.sched.active - 1 }, worker := .waiting }
    else none
  | .stop =>
    if s.destroyer = .idle then
      some { s with sched := { s.sched with running := false }, destroyer := .stopped }
    else none
  | .join =>
    if s.destroyer = .stopped ∧ s.worker = .exited then some { s with destroyer := .joined }
    else none
  | .cleanup nodes =>
    if s.destroyer = .joined then
      (freeAll s.sched.queue.heap s.sched.queue.head nodes).map fun heap => { s with
        sched := { s.sched with queue := { s.sched.queue with heap } }
        destroyer := .cleaned
        leftover := nodes }
    else none
  | .free => if s.destroyer = .cleaned then some { s with destroyer := .freed } else none

/-- The task whose callback is running. -/
def SchedSystem.current (s : SchedSystem T) : List T :=
  match s.worker with
  | .running task => ((s.sched.queue.heap task).map (·.item)).toList
  | _ => []

/-- A task is taken and not yet accounted as done. -/
def Worker.busy : Worker → Bool
  | .waiting => false
  | .running _ => true
  | .finished => true
  | .exited => false

/-! ## The invariant -/

/-- The queue holds those nodes, and no task is lost, doubled or out of order. -/
structure SchedSystem.Holds (s : SchedSystem T) (nodes : List (Addr × T)) : Prop where
  queue : s.sched.queue.Holds nodes
  order : s.ran ++ s.current ++ nodes.map (·.2) = s.accepted
  pending : s.sched.pending = nodes.length
  active : s.sched.active = s.worker.busy.toNat
  taken : ∀ task, s.worker = .running task →
    (s.sched.queue.heap task).isSome ∧ task ∉ nodes.map (·.1)
  running : s.sched.running = true ↔ s.destroyer = .idle
  exited : s.worker = .exited → nodes = [] ∧ s.destroyer ≠ .idle
  joined : s.worker = .exited ∨ s.destroyer = .idle ∨ s.destroyer = .stopped
  leftover : s.leftover = []
  fault : s.fault = false

def SchedSystem.Consistent (s : SchedSystem T) : Prop := ∃ nodes, s.Holds nodes

/-- The worker is still there for a task that gets a node. -/
def MayPost (s : SchedSystem T) : SchedAction T → Prop
  | .post (some _) (some _) => s.worker ≠ .exited
  | _ => True

theorem create_holds : ({} : SchedSystem T).Holds [] where
  queue := holds_empty
  order := rfl
  pending := rfl
  active := rfl
  taken _ h := Worker.noConfusion h
  running := ⟨fun _ => rfl, fun _ => rfl⟩
  exited h := Worker.noConfusion h
  joined := .inr (.inl rfl)
  leftover := rfl
  fault := rfl

section Steps

variable {s t : SchedSystem T} {nodes : List (Addr × T)}

theorem SchedSystem.Holds.post (h : s.Holds nodes) (hworker : s.worker ≠ .exited) {task : T}
    {a : Addr} (hfresh : s.sched.queue.heap a = none) :
    (schedPost s (some task) (some a)).Holds (nodes ++ [(a, task)]) := by
  have hfreed : s.destroyer ≠ .freed := by
    intro hfreed
    rcases h.joined with hexited | hidle | hstopped
    · exact hworker hexited
    · exact Destroyer.noConfusion (hfreed.symm.trans hidle)
    · exact Destroyer.noConfusion (hfreed.symm.trans hstopped)
  have hheap : ∀ b, s.worker = .running b →
      (s.sched.queue.push a task).heap b = s.sched.queue.heap b := by
    intro b hb
    obtain ⟨halive, hnot⟩ := h.taken b hb
    refine Queue.push_heap_of_ne h.queue task ?_ hnot
    rintro rfl
    rw [hfresh] at halive
    exact Bool.noConfusion halive
  unfold schedPost
  simp only [bgSchedPost, ne_eq, not_true_eq_false, if_false, if_neg hfreed]
  refine ⟨h.queue.push hfresh task, ?_, ?_, h.active, ?_, h.running, ?_, h.joined, h.leftover,
    h.fault⟩
  · have hcurrent : SchedSystem.current { s with
        sched := { s.sched with queue := s.sched.queue.push a task, pending := s.sched.pending + 1 }
        accepted := s.accepted ++ (some task).toList } = s.current := by
      unfold SchedSystem.current
      cases hw : s.worker with
      | running b => simp only [hheap b hw]
      | _ => rfl
    rw [hcurrent, ← h.order]
    simp
  · simp [h.pending]
  · intro b hb
    obtain ⟨halive, hnot⟩ := h.taken b hb
    refine ⟨by rw [← hheap b hb] at halive; exact halive, ?_⟩
    rw [List.map_append, List.mem_append, not_or]
    refine ⟨hnot, ?_⟩
    rintro hmem
    obtain rfl : b = a := by simpa using hmem
    rw [hfresh] at halive
    exact Bool.noConfusion halive
  · exact fun hexited => absurd hexited hworker

theorem SchedSystem.Holds.take (h : s.Holds nodes) (hstep : schedStep s .take = some t) :
    ∃ node rest, nodes = node :: rest ∧ t.Holds rest := by
  obtain ⟨hwaiting, hstep⟩ := Option.ite_none_right_eq_some.mp hstep
  rcases nodes with _ | ⟨⟨a, x⟩, rest⟩
  · unfold workerTake at hstep
    rw [h.queue.pop_nil] at hstep
    exact absurd hstep.symm (Option.some_ne_none t)
  · obtain ⟨q, hpop, hq, hheap, ⟨next, hnode⟩, hnot⟩ := h.queue.pop_cons
    unfold workerTake at hstep
    rw [hpop] at hstep
    obtain rfl := Option.some.inj hstep
    have halive : (q.heap a).isSome := by
      rw [hheap, hnode]
      rfl
    refine ⟨(a, x), rest, rfl, hq, ?_, ?_, ?_, ?_, h.running, ?_, ?_, h.leftover, h.fault⟩
    · have horder := h.order
      simp only [SchedSystem.current, hwaiting, hheap, hnode, List.map_cons] at horder ⊢
      simpa using horder
    · simp [h.pending]
    · simp [h.active, hwaiting, Worker.busy]
    · rintro task ⟨⟩
      exact ⟨halive, hnot⟩
    · exact fun h => Worker.noConfusion h
    · exact .inr (h.joined.resolve_left (by simp [hwaiting]))

theorem SchedSystem.Holds.exit (h : s.Holds nodes) (hstep : schedStep s .exit = some t) :
    nodes = [] ∧ t.Holds nodes := by
  obtain ⟨hexit, hstep⟩ := Option.ite_none_right_eq_some.mp hstep
  obtain ⟨hwaiting, hhead, hrunning⟩ := hexit
  obtain rfl := Option.some.inj hstep
  have hnil : nodes = [] := by
    rw [h.queue.chain.head_eq, Option.map_eq_none_iff] at hhead
    exact List.head?_eq_none_iff.mp hhead
  have hidle : s.destroyer ≠ .idle := fun hidle => by simp [h.running.mpr hidle] at hrunning
  refine ⟨hnil, h.queue, ?_, h.pending, ?_, ?_, h.running, fun _ => ⟨hnil, hidle⟩, .inl rfl,
    h.leftover, h.fault⟩
  · simpa [SchedSystem.current, hwaiting] using h.order
  · simpa [hwaiting, Worker.busy] using h.active
  · exact fun _ h => Worker.noConfusion h

theorem SchedSystem.Holds.call (h : s.Holds nodes) (hstep : schedStep s .call = some t) :
    t.Holds nodes := by
  simp only [schedStep] at hstep
  split at hstep
  case h_2 => exact absurd hstep.symm (Option.some_ne_none t)
  case h_1 task hworker =>
    obtain ⟨node, hnode, rfl⟩ := Option.map_eq_some_iff.mp hstep
    refine ⟨h.queue.free (h.taken task hworker).2, ?_, h.pending, ?_, ?_, h.running, ?_, ?_,
      h.leftover, h.fault⟩
    · simpa [SchedSystem.current, hworker, hnode] using h.order
    · simpa [hworker, Worker.busy] using h.active
    · exact fun _ h => Worker.noConfusion h
    · exact fun h => Worker.noConfusion h
    · exact .inr (h.joined.resolve_left (by simp [hworker]))

theorem SchedSystem.Holds.account (h : s.Holds nodes) (hstep : schedStep s .account = some t) :
    t.Holds nodes := by
  obtain ⟨hfinished, hstep⟩ := Option.ite_none_right_eq_some.mp hstep
  obtain rfl := Option.some.inj hstep
  refine ⟨h.queue, ?_, h.pending, ?_, ?_, h.running, ?_, ?_, h.leftover, h.fault⟩
  · simpa [SchedSystem.current, hfinished] using h.order
  · simp [h.active, hfinished, Worker.busy]
  · exact fun _ h => Worker.noConfusion h
  · exact fun h => Worker.noConfusion h
  · exact .inr (h.joined.resolve_left (by simp [hfinished]))

theorem SchedSystem.Holds.stop (h : s.Holds nodes) (hstep : schedStep s .stop = some t) :
    t.Holds nodes := by
  obtain ⟨hidle, hstep⟩ := Option.ite_none_right_eq_some.mp hstep
  obtain rfl := Option.some.inj hstep
  refine ⟨h.queue, h.order, h.pending, h.active, h.taken, by simp, fun hexited => ?_,
    .inr (.inr rfl), h.leftover, h.fault⟩
  exact absurd hidle (h.exited hexited).2

theorem SchedSystem.Holds.join (h : s.Holds nodes) (hstep : schedStep s .join = some t) :
    t.Holds nodes := by
  obtain ⟨hjoin, hstep⟩ := Option.ite_none_right_eq_some.mp hstep
  obtain rfl := Option.some.inj hstep
  refine ⟨h.queue, h.order, h.pending, h.active, h.taken, ?_, fun hexited => ?_, .inl hjoin.2,
    h.leftover, h.fault⟩
  · simp [h.running, hjoin.1]
  · exact ⟨(h.exited hexited).1, fun h => Destroyer.noConfusion h⟩

theorem SchedSystem.Holds.cleanup (h : s.Holds nodes) {addrs : List Addr}
    (hstep : schedStep s (.cleanup addrs) = some t) : t.Holds nodes := by
  obtain ⟨hjoined, hstep⟩ := Option.ite_none_right_eq_some.mp hstep
  have hexited : s.worker = .exited := by simpa [hjoined] using h.joined
  obtain ⟨rfl, -⟩ := h.exited hexited
  obtain ⟨heap, hfree, rfl⟩ := Option.map_eq_some_iff.mp hstep
  obtain ⟨rfl, rfl⟩ := h.queue.freeAll_nil hfree
  refine ⟨h.queue, h.order, h.pending, h.active, h.taken, ?_, fun _ => ⟨rfl, ?_⟩, .inl hexited,
    rfl, h.fault⟩
  · simp [h.running, hjoined]
  · exact fun h => Destroyer.noConfusion h

theorem SchedSystem.Holds.free (h : s.Holds nodes) (hstep : schedStep s .free = some t) :
    t.Holds nodes := by
  obtain ⟨hcleaned, hstep⟩ := Option.ite_none_right_eq_some.mp hstep
  obtain rfl := Option.some.inj hstep
  have hexited : s.worker = .exited := by simpa [hcleaned] using h.joined
  refine ⟨h.queue, h.order, h.pending, h.active, h.taken, ?_, fun _ => ⟨(h.exited hexited).1, ?_⟩,
    .inl hexited, h.leftover, h.fault⟩
  · simp [h.running, hcleaned]
  · exact fun h => Destroyer.noConfusion h

theorem schedStep_call (hstep : schedStep s .call = some t) :
    ∃ task node, s.worker = .running task ∧ s.sched.queue.heap task = some node ∧ t = { s with
      sched := { s.sched with queue := s.sched.queue.free task }
      worker := .finished
      ran := s.ran ++ [node.item] } := by
  simp only [schedStep] at hstep
  split at hstep
  · rename_i task hworker
    obtain ⟨node, hnode, rfl⟩ := Option.map_eq_some_iff.mp hstep
    exact ⟨task, node, hworker, hnode, rfl⟩
  · exact absurd hstep.symm (Option.some_ne_none t)

theorem schedPost_refused {fn : Option T} {node : Option Addr} (h : fn = none ∨ node = none) :
    schedPost s fn node = s := by
  rcases h with rfl | rfl
  · rfl
  · cases fn <;> rfl

theorem schedStep_post {fn : Option T} {node : Option Addr} (hidle : s.destroyer = .idle)
    (hstep : schedStep s (.post fn node) = some t) :
    t.destroyer = .idle ∧ t.worker = s.worker ∧ t.accepted = s.accepted ++
      if (bgSchedPost s.sched fn node).1 = 0 then fn.toList else [] := by
  obtain ⟨-, hstep⟩ := Option.ite_none_left_eq_some.mp hstep
  obtain rfl := Option.some.inj hstep
  unfold schedPost
  by_cases hposted : (bgSchedPost s.sched fn node).1 = 0
  · rw [if_neg (not_not.mpr hposted), if_neg (by simp [hidle]), if_pos hposted]
    exact ⟨hidle, rfl, rfl⟩
  · rw [if_pos hposted, if_neg hposted]
    exact ⟨hidle, rfl, (List.append_nil _).symm⟩

theorem mayPost_of_byWorker (s : SchedSystem T) {a : SchedAction T} (ha : a.byWorker = true) :
    MayPost s a := by
  cases a with
  | post => exact Bool.noConfusion ha
  | _ => trivial

theorem schedStep_byWorker {a : SchedAction T} (ha : a.byWorker = true)
    (hstep : schedStep s a = some t) :
    t.destroyer = s.destroyer ∧ t.accepted = s.accepted ∧ t.leftover = s.leftover ∧
      t.fault = s.fault := by
  cases a with
  | take =>
    obtain ⟨-, hstep⟩ := Option.ite_none_right_eq_some.mp hstep
    obtain ⟨taken, -, rfl⟩ := Option.map_eq_some_iff.mp hstep
    exact ⟨rfl, rfl, rfl, rfl⟩
  | exit =>
    obtain ⟨-, hstep⟩ := Option.ite_none_right_eq_some.mp hstep
    obtain rfl := Option.some.inj hstep
    exact ⟨rfl, rfl, rfl, rfl⟩
  | call =>
    simp only [schedStep] at hstep
    split at hstep
    · obtain ⟨node, -, rfl⟩ := Option.map_eq_some_iff.mp hstep
      exact ⟨rfl, rfl, rfl, rfl⟩
    · exact absurd hstep.symm (Option.some_ne_none t)
  | account =>
    obtain ⟨-, hstep⟩ := Option.ite_none_right_eq_some.mp hstep
    obtain rfl := Option.some.inj hstep
    exact ⟨rfl, rfl, rfl, rfl⟩
  | _ => exact Bool.noConfusion ha

theorem schedStep_heap_none {a : SchedAction T} (ha : a.byWorker = true)
    (hstep : schedStep s a = some t) {p : Addr} (hp : s.sched.queue.heap p = none) :
    t.sched.queue.heap p = none := by
  cases a with
  | take =>
    obtain ⟨-, hstep⟩ := Option.ite_none_right_eq_some.mp hstep
    obtain ⟨taken, htaken, rfl⟩ := Option.map_eq_some_iff.mp hstep
    obtain ⟨popped, hpop, rfl⟩ := Option.map_eq_some_iff.mp htaken
    obtain ⟨a, -, hnode⟩ := Option.bind_eq_some_iff.mp hpop
    obtain ⟨node, -, rfl⟩ := Option.map_eq_some_iff.mp hnode
    exact hp
  | exit =>
    obtain ⟨-, hstep⟩ := Option.ite_none_right_eq_some.mp hstep
    obtain rfl := Option.some.inj hstep
    exact hp
  | call =>
    simp only [schedStep] at hstep
    split at hstep
    · rename_i task _
      obtain ⟨node, -, rfl⟩ := Option.map_eq_some_iff.mp hstep
      dsimp only [Queue.free]
      by_cases htask : p = task
      · rw [htask, Function.update_self]
      · rw [Function.update_of_ne htask, hp]
    · exact absurd hstep.symm (Option.some_ne_none t)
  | account =>
    obtain ⟨-, hstep⟩ := Option.ite_none_right_eq_some.mp hstep
    obtain rfl := Option.some.inj hstep
    exact hp
  | _ => exact Bool.noConfusion ha

/-- **Step.** A step of any thread keeps the queue and its counters in order. -/
theorem schedStep_consistent (s : SchedSystem T) (a : SchedAction T) (t : SchedSystem T)
    (h : s.Consistent) (hpost : MayPost s a) (hstep : schedStep s a = some t) : t.Consistent := by
  obtain ⟨nodes, h⟩ := h
  cases a with
  | post fn node =>
    obtain ⟨hfresh, hstep⟩ := Option.ite_none_left_eq_some.mp hstep
    obtain rfl := Option.some.inj hstep
    cases fn with
    | none => exact ⟨nodes, by rwa [schedPost_refused (.inl rfl)]⟩
    | some task =>
      cases node with
      | none => exact ⟨nodes, by rwa [schedPost_refused (.inr rfl)]⟩
      | some a => exact ⟨_, h.post hpost (by simpa using hfresh)⟩
  | take =>
    obtain ⟨node, rest, -, hrest⟩ := h.take hstep
    exact ⟨rest, hrest⟩
  | exit => exact ⟨nodes, (h.exit hstep).2⟩
  | call => exact ⟨nodes, h.call hstep⟩
  | account => exact ⟨nodes, h.account hstep⟩
  | stop => exact ⟨nodes, h.stop hstep⟩
  | join => exact ⟨nodes, h.join hstep⟩
  | cleanup addrs => exact ⟨nodes, h.cleanup hstep⟩
  | free => exact ⟨nodes, h.free hstep⟩

end Steps

/-! ## Runs -/

/-- Every post comes before the stop of `bg_sched_destroy`. -/
def Orderly (s : SchedSystem T) : SchedAction T → Prop
  | .post _ _ => s.destroyer = .idle
  | _ => True

instance (s : SchedSystem T) : DecidablePred (Orderly s)
  | .post _ _ => inferInstanceAs (Decidable (s.destroyer = .idle))
  | .take | .exit | .call | .account | .stop | .join | .cleanup _ | .free => .isTrue trivial

theorem Orderly.mayPost {s : SchedSystem T} (h : s.Consistent) {a : SchedAction T}
    (ha : Orderly s a) : MayPost s a := by
  obtain ⟨nodes, h⟩ := h
  rcases a with ⟨_ | task, _ | node⟩ | _
  all_goals first
    | trivial
    | exact fun hexited => (h.exited hexited).2 ha

/-- **Run.** Any interleaving keeps them in order, as long as no post comes after the stop. -/
theorem run_consistent {actions : List (SchedAction T)} {s : SchedSystem T}
    (horderly : Runs.Along schedStep Orderly {} actions)
    (hrun : Runs.run schedStep {} actions = some s) : s.Consistent :=
  Runs.run_invariant SchedSystem.Consistent (fun s a t h ha => schedStep_consistent s a t h (ha.mayPost h))
    ⟨[], create_holds⟩ horderly hrun

/-- In whatever order the threads take their steps, what has run, what is running and what is
queued are the accepted posts in their order, and the counters and the tail agree with the
queue. The worker exits with an empty queue, so in the end every post has run once. -/
theorem posts_run_in_order (actions : List (SchedAction T)) (s : SchedSystem T)
    (horderly : Runs.Along schedStep Orderly {} actions)
    (hrun : Runs.run schedStep {} actions = some s) :
    ∃ nodes, Chain s.sched.queue.heap s.sched.queue.head nodes ∧
      s.ran ++ s.current ++ nodes.map (·.2) = s.accepted ∧
      s.sched.pending = nodes.length ∧
      s.sched.active = (if s.worker.busy then 1 else 0) ∧
      (s.sched.queue.tail = none ↔ s.sched.queue.head = none) ∧
      s.sched.queue.tail = lastAddr nodes ∧
      (s.worker = .exited → nodes = []) ∧
      (s.destroyer = .freed → s.ran = s.accepted ∧ s.leftover = []) := by
  obtain ⟨nodes, h⟩ := run_consistent horderly hrun
  refine ⟨nodes, h.queue.chain, h.order, h.pending, ?_, ?_, h.queue.tail_eq,
    fun hexited => (h.exited hexited).1, fun hfreed => ⟨?_, h.leftover⟩⟩
  · rw [h.active]
    cases s.worker.busy <;> rfl
  · rw [h.queue.tail_eq, lastAddr_eq_none, h.queue.chain.head_eq, Option.map_eq_none_iff,
      List.head?_eq_none_iff]
  · have hexited : s.worker = .exited := by simpa [hfreed] using h.joined
    obtain ⟨rfl, -⟩ := h.exited hexited
    simpa [SchedSystem.current, hexited] using h.order

/-- Two posts, the second while the first runs, and a shutdown before the second is taken. -/
def twoPosts : List (SchedAction ℕ) :=
  [.post (some 10) (some 0), .take, .post (some 20) (some 1), .stop, .call, .account, .take, .call,
    .account, .exit, .join, .cleanup [], .free]

theorem posts_run_in_order_twoPosts :
    ∃ s, Runs.run schedStep {} twoPosts = some s ∧ s.accepted = [10, 20] ∧ s.ran = s.accepted := by
  have hrun : (Runs.run schedStep {} twoPosts).map
      (fun s => (s.accepted, s.destroyer)) = some ([10, 20], .freed) := by rfl
  obtain ⟨s, hs, hend⟩ := Option.map_eq_some_iff.mp hrun
  obtain ⟨nodes, -, -, -, -, -, -, -, hfreed⟩ := posts_run_in_order twoPosts s (by decide) hs
  exact ⟨s, hs, congrArg Prod.fst hend, (hfreed (congrArg Prod.snd hend)).1⟩

end MlinkDevice
