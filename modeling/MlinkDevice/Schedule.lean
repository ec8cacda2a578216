import MlinkDevice.LinkedQueue
import MlinkDevice.Runs
import MlinkDevice.Threads

/-!
# The foreground scheduler

`schedule.c`: tasks that any thread posts and that the threads in `schedule_run` take. The test
of the loop is made without the mutex, so other threads run between it and the take.
-/

open MlinkDevice.LinkedQueue

namespace MlinkDevice

variable {T : Type}

/-! ## The sections -/

/-- `struct schedule` with the nodes of its list. A task is a callback and its argument. -/
structure Schedule (T : Type) where
  heap : Heap T
  taskQueue : Option Addr
  running : Bool

def scheduleCreate : Schedule T := { heap := fun _ => none, taskQueue := none, running := true }

/-- `schedule_post`, where `node` is what `malloc` returns: the result and the schedule, unless
it follows a pointer to no node. -/
def schedulePost (s : Schedule T) (fn : Option T) (node : Option Addr) (fuel : ℕ) :
    Option (Int32 × Schedule T) :=
  match fn, node with
  | some task, some a =>
    let heap := Function.update s.heap a (some ⟨task, none⟩)
    match s.taskQueue with
    | none => some (0, { s with heap, taskQueue := some a })
    | some head => (findTail heap fuel head).map fun tail => (0, { s with
        heap := Function.update heap tail
          ((heap tail).map fun node => { node with next := some a }) })
  | _, _ => some (-1, s)

/-- The loop test of `schedule_run`. -/
def scheduleTest (s : Schedule T) : Bool := s.running && s.taskQueue.isSome

/-- The section of `schedule_run`: the task it takes, if the schedule still runs, and none at
all where it reads `task->next` without a task. -/
def scheduleTake (s : Schedule T) : Option (Option Addr × Schedule T) :=
  if s.running = false then some (none, s)
  else s.taskQueue.bind fun task => (s.heap task).map fun node =>
    (some task, { s with taskQueue := node.next })

/-! ## The steps of the threads -/

/-- Where a thread is in `schedule_run`. -/
inductive Runner where
  | idle
  | testing
  | tested
  | holding (task : Addr)
  | called (task : Addr)
deriving DecidableEq

def Runner.task : Runner → Option Addr
  | .holding task | .called task => some task
  | _ => none

/-- The task whose callback is still to run. -/
def Runner.item (heap : Heap T) : Runner → Option T
  | .holding task => (heap task).map (·.item)
  | _ => none

/-- The schedule and the threads that run its tasks, with the tasks that were accepted, taken
and run, and whether a step used a pointer to no node. -/
structure ScheduleSystem (T : Type) where
  sched : Schedule T := scheduleCreate
  runners : List Runner
  posted : List T := []
  taken : List T := []
  ran : List T := []
  fault : Bool := false

/-- A callback that posts does so between its `call` and its `free`. -/
inductive ScheduleAction (T : Type) where
  | post (fn : Option T) (node : Option Addr)
  | enter (runner : ℕ)
  | test (runner : ℕ)
  | take (runner : ℕ)
  | call (runner : ℕ)
  | free (runner : ℕ)

def ScheduleSystem.move (s : ScheduleSystem T) (i : ℕ) (r : Runner) : ScheduleSystem T :=
  { s with runners := s.runners.set i r }

def scheduleStep (s : ScheduleSystem T) : ScheduleAction T → Option (ScheduleSystem T)
  | .post fn node =>
    -- `malloc` returns no node that is in use.
    if node.any fun a => (s.sched.heap a).isSome then none
    else match schedulePost s.sched fn node s.posted.length with
      | none => some { s with fault := true }
      | some (result, sched) =>
        some { s with sched, posted := s.posted ++ if result = 0 then fn.toList else [] }
  | .enter i => if s.runners[i]? = some .idle then some (s.move i .testing) else none
  | .test i =>
    if s.runners[i]? = some .testing then
      some (s.move i (if scheduleTest s.sched then .tested else .idle))
    else none
  | .take i =>
    if s.runners[i]? = some .tested then
      match scheduleTake s.sched with
      | none => some { s with fault := true }
      | some (none, _) => some (s.move i .idle)
      | some (some task, sched) => some { s.move i (.holding task) with
          sched
          taken := s.taken ++ ((s.sched.heap task).map (·.item)).toList }
    else none
  | .call i =>
    match s.runners[i]? with
    | some (.holding task) =>
      match s.sched.heap task with
      | none => some { s with fault := true }
      | some node => some { s.move i (.called task) with ran := s.ran ++ [node.item] }
    | _ => none
  | .free i =>
    match s.runners[i]? with
    | some (.called task) => some { s.move i .testing with
        sched := { s.sched with heap := Function.update s.sched.heap task none } }
    | _ => none

def ScheduleSystem.start (runners : ℕ) : ScheduleSystem T :=
  { runners := List.replicate runners .idle }

/-- The tasks that threads have taken and not freed. -/
def ScheduleSystem.tasks (s : ScheduleSystem T) : List Addr := s.runners.filterMap Runner.task

/-- The tasks that threads have taken and not run. -/
def ScheduleSystem.held (s : ScheduleSystem T) : List T :=
  s.runners.filterMap (Runner.item s.sched.heap)

/-- The threads between their test and their take. -/
def ScheduleSystem.tested (s : ScheduleSystem T) : ℕ := s.runners.countP (· = .tested)

end MlinkDevice
