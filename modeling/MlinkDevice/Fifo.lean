import Mathlib.Logic.Relation

/-!
# A producer, a queue and a worker

A producer goes through its input and posts a task for an item or drops it. A worker
takes the tasks from the front of the queue and runs them. Without a worker the producer
runs each task itself. The order of their steps does not show in the end.
-/

namespace MlinkDevice.Fifo

variable {α μ σ : Type*}

structure State (α μ σ : Type*) where
  input : List α
  queue : List μ
  state : σ

def start (input : List α) (s : σ) : State α μ σ := ⟨input, [], s⟩

def State.Ended (p : State α μ σ) : Prop := p.input = [] ∧ p.queue = []

section Steps

variable (task : α → Option μ) (run : σ → μ → σ) (worker : Bool)

inductive Step : State α μ σ → State α μ σ → Prop where
  | post {a input queue s} (h : worker = true) :
    Step ⟨a :: input, queue, s⟩ ⟨input, queue ++ (task a).toList, s⟩
  | inline {a input queue s} (h : worker = false) :
    Step ⟨a :: input, queue, s⟩ ⟨input, queue, (task a).toList.foldl run s⟩
  | work {input t queue s} : Step ⟨input, t :: queue, s⟩ ⟨input, queue, run s t⟩

abbrev Steps : State α μ σ → State α μ σ → Prop := Relation.ReflTransGen (Step task run worker)

def State.pending (p : State α μ σ) : List μ := p.queue ++ p.input.filterMap task

/-- Without a worker nothing is ever posted. -/
def State.Direct (p : State α μ σ) : Prop := worker = false → p.queue = []

variable {task run worker}

theorem Step.direct {p q : State α μ σ} (h : Step task run worker p q) (hp : p.Direct worker) :
    q.Direct worker := by
  cases h with
  | post h => exact fun h' => absurd (h.symm.trans h') Bool.noConfusion
  | inline h => exact hp
  | work => exact fun h' => absurd (hp h') (List.cons_ne_nil _ _)

/-- **Step.** Running what is pending leads to the same state before and after a step. -/
theorem Step.pending {p q : State α μ σ} (h : Step task run worker p q) (hp : p.Direct worker) :
    (q.pending task).foldl run q.state = (p.pending task).foldl run p.state := by
  cases h with
  | @post a input queue s h => cases ha : task a <;> simp [State.pending, ha]
  | @inline a input queue s h =>
    obtain rfl : queue = [] := hp h
    cases ha : task a <;> simp [State.pending, ha]
  | work => rfl

/-- **Run.** Whatever the order of the steps, in the end every task has run once, in order. -/
theorem Steps.ended {input : List α} {s : σ} {p : State α μ σ}
    (h : Steps task run worker (start input s) p) (hp : p.Ended) :
    p.state = (input.filterMap task).foldl run s := by
  have hinvariant : p.Direct worker ∧
      (p.pending task).foldl run p.state = (input.filterMap task).foldl run s := by
    clear hp
    induction h with
    | refl => exact ⟨fun _ => rfl, rfl⟩
    | tail _ hstep ih => exact ⟨hstep.direct ih.1, (hstep.pending ih.1).trans ih.2⟩
  rw [← hinvariant.2, State.pending, hp.1, hp.2]
  rfl

/-- Every run can be brought to an end. -/
theorem exists_ended (p : State α μ σ) : ∃ q, Steps task run worker p q ∧ q.Ended := by
  obtain ⟨input, queue, s⟩ := p
  induction input generalizing queue s with
  | nil =>
    induction queue generalizing s with
    | nil => exact ⟨_, .refl, rfl, rfl⟩
    | cons t queue ih =>
      obtain ⟨q, hsteps, hq⟩ := ih (run s t)
      exact ⟨q, .head .work hsteps, hq⟩
  | cons a input ih =>
    cases hworker : worker with
    | true =>
      subst hworker
      obtain ⟨q, hsteps, hq⟩ := ih (queue ++ (task a).toList) s
      exact ⟨q, .head (.post rfl) hsteps, hq⟩
    | false =>
      subst hworker
      obtain ⟨q, hsteps, hq⟩ := ih queue ((task a).toList.foldl run s)
      exact ⟨q, .head (.inline rfl) hsteps, hq⟩

end Steps

end MlinkDevice.Fifo
