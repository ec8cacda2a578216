import MlinkDevice.Threads

/-!
# Condition variables

A signal wakes at least one of the threads that wait, if any does, and a broadcast wakes all.
A thread that was chosen counts as signalled until it has the mutex again. What is available
is served when no thread sleeps while more of it is there than signalled threads.
-/

namespace MlinkDevice

variable {τ : Type*}

/-- What one condition variable sees of a thread. -/
structure CondVar (τ : Type*) where
  asleep : τ → Bool
  signalled : τ → Bool
  wake : τ → τ
  signalled_of_asleep : ∀ t, asleep t = true → signalled t = false
  asleep_wake : ∀ t, asleep t = true → asleep (wake t) = false
  signalled_wake : ∀ t, asleep t = true → signalled (wake t) = true

namespace CondVar

/-- The threads after a signal, when these are the choices for each of them. -/
def signal (c : CondVar τ) : List Bool → List τ → List τ
  | chosen :: rest, t :: threads =>
    (if chosen && c.asleep t then c.wake t else t) :: signal c rest threads
  | _, threads => threads

/-- At least one thread is chosen, unless none is asleep. -/
def Wakes (c : CondVar τ) (chosen : List Bool) (threads : List τ) : Prop :=
  0 < threads.countP c.asleep → (c.signal chosen threads).countP c.asleep < threads.countP c.asleep

instance (c : CondVar τ) (chosen : List Bool) (threads : List τ) :
    Decidable (c.Wakes chosen threads) :=
  inferInstanceAs (Decidable (_ → _))

def broadcast (c : CondVar τ) (threads : List τ) : List τ :=
  threads.map fun t => if c.asleep t then c.wake t else t

/-- No thread sleeps while more is available than threads are signalled. -/
def Served (c : CondVar τ) (available : ℕ) (threads : List τ) : Prop :=
  0 < threads.countP c.asleep → available ≤ threads.countP c.signalled

variable {c : CondVar τ} {chosen : List Bool} {threads : List τ} {available : ℕ}

/-! ## Members -/

theorem forall_signal {P : τ → Prop} (hwake : ∀ t, P t → P (c.wake t)) (chosen : List Bool)
    (h : ∀ t ∈ threads, P t) : ∀ t ∈ c.signal chosen threads, P t := by
  induction chosen generalizing threads with
  | nil => exact h
  | cons chosen rest ih =>
    cases threads with
    | nil => exact h
    | cons t threads =>
      obtain ⟨ht, hthreads⟩ := List.forall_mem_cons.mp h
      refine List.forall_mem_cons.mpr ⟨?_, ih hthreads⟩
      split_ifs
      · exact hwake t ht
      · exact ht

theorem forall_broadcast {P : τ → Prop} (hwake : ∀ t, P t → P (c.wake t))
    (h : ∀ t ∈ threads, P t) : ∀ t ∈ c.broadcast threads, P t := by
  intro t ht
  obtain ⟨u, hu, rfl⟩ := List.mem_map.mp ht
  split_ifs
  · exact hwake u (h u hu)
  · exact h u hu

theorem getElem?_signal {i : ℕ} {u : τ} (h : (c.signal chosen threads)[i]? = some u) :
    ∃ t, threads[i]? = some t ∧ (u = t ∨ (c.asleep t = true ∧ u = c.wake t)) := by
  induction chosen generalizing threads i with
  | nil => exact ⟨u, h, .inl rfl⟩
  | cons chosen rest ih =>
    cases threads with
    | nil => exact ⟨u, h, .inl rfl⟩
    | cons t threads =>
      cases i with
      | zero =>
        refine ⟨t, rfl, ?_⟩
        obtain rfl := Option.some.inj h
        split_ifs with hchosen
        · exact .inr ⟨((Bool.and_eq_true _ _).mp hchosen).2, rfl⟩
        · exact .inl rfl
      | succ i =>
        rw [signal, List.getElem?_cons_succ] at h
        rw [List.getElem?_cons_succ]
        exact ih h

theorem getElem?_broadcast {i : ℕ} {u : τ} (h : (c.broadcast threads)[i]? = some u) :
    ∃ t, threads[i]? = some t ∧ (u = t ∨ (c.asleep t = true ∧ u = c.wake t)) := by
  rw [broadcast, List.getElem?_map] at h
  obtain ⟨t, ht, rfl⟩ := Option.map_eq_some_iff.mp h
  refine ⟨t, ht, ?_⟩
  split_ifs with hasleep
  · exact .inr ⟨hasleep, rfl⟩
  · exact .inl rfl

/-! ## Counting -/

theorem countP_signal (c : CondVar τ) (chosen : List Bool) (threads : List τ) :
    (c.signal chosen threads).countP c.asleep + (c.signal chosen threads).countP c.signalled =
      threads.countP c.asleep + threads.countP c.signalled := by
  induction chosen generalizing threads with
  | nil => rfl
  | cons chosen rest ih =>
    cases threads with
    | nil => rfl
    | cons t threads =>
      have hrest := ih threads
      simp only [signal, List.countP_cons]
      cases hasleep : c.asleep t with
      | false => simp [hasleep]; omega
      | true =>
        have hsignalled := c.signalled_of_asleep t hasleep
        cases chosen with
        | false => simp [hasleep, hsignalled]; omega
        | true => simp [hsignalled, c.asleep_wake t hasleep, c.signalled_wake t hasleep]; omega

theorem countP_signal_of_other {p : τ → Bool} (h : ∀ t, c.asleep t = true → p (c.wake t) = p t)
    (chosen : List Bool) (threads : List τ) :
    (c.signal chosen threads).countP p = threads.countP p := by
  induction chosen generalizing threads with
  | nil => rfl
  | cons chosen rest ih =>
    cases threads with
    | nil => rfl
    | cons t threads =>
      simp only [signal, List.countP_cons, ih]
      split_ifs with hif hp hp hp hp <;> simp_all

theorem countP_broadcast (c : CondVar τ) (threads : List τ) :
    (c.broadcast threads).countP c.asleep = 0 := by
  rw [List.countP_eq_zero, broadcast]
  intro t ht
  obtain ⟨u, -, rfl⟩ := List.mem_map.mp ht
  split_ifs with hasleep
  · rw [c.asleep_wake u hasleep]
    exact Bool.false_ne_true
  · exact hasleep

theorem countP_signal_le (c : CondVar τ) (chosen : List Bool) (threads : List τ) :
    (c.signal chosen threads).countP c.asleep ≤ threads.countP c.asleep := by
  induction chosen generalizing threads with
  | nil => exact Nat.le_refl _
  | cons chosen rest ih =>
    cases threads with
    | nil => exact Nat.le_refl _
    | cons t threads =>
      have hrest := ih threads
      simp only [signal, List.countP_cons]
      cases hasleep : c.asleep t with
      | false => simpa [hasleep] using hrest
      | true =>
        cases chosen with
        | false => simpa [hasleep] using hrest
        | true =>
          simp only [Bool.true_and, if_true, c.asleep_wake t hasleep, Bool.false_eq_true, if_false]
          omega

/-! ## Serving -/

@[simp]
theorem served_zero (c : CondVar τ) (threads : List τ) : c.Served 0 threads :=
  fun _ => Nat.zero_le _

theorem served_broadcast (c : CondVar τ) (available : ℕ) (threads : List τ) :
    c.Served available (c.broadcast threads) := by
  intro h
  rw [countP_broadcast] at h
  exact absurd h (Nat.lt_irrefl 0)

/-- **Signal.** One more is available, and one more thread is signalled if any sleeps. -/
theorem Served.signal (h : c.Served available threads) (hwakes : c.Wakes chosen threads) :
    c.Served (available + 1) (c.signal chosen threads) := by
  intro hasleep
  have hle := countP_signal_le c chosen threads
  have hcount := countP_signal c chosen threads
  have hbefore : 0 < threads.countP c.asleep := by omega
  have hserved := h hbefore
  have hfewer := hwakes hbefore
  omega

theorem Served.signal_other {d : CondVar τ} (h : c.Served available threads)
    (hother : ∀ t, d.asleep t = true →
      c.asleep (d.wake t) = c.asleep t ∧ c.signalled (d.wake t) = c.signalled t)
    (chosen : List Bool) : c.Served available (d.signal chosen threads) := by
  intro hasleep
  rw [countP_signal_of_other fun t ht => (hother t ht).1] at hasleep
  rw [countP_signal_of_other fun t ht => (hother t ht).2]
  exact h hasleep

/-- **Take.** A thread that has the mutex takes one, whether it was signalled or came late. -/
theorem Served.take {i : ℕ} {a b : τ} (h : c.Served (available + 1) threads)
    (hi : threads[i]? = some a) (ha : c.asleep a = false) (hb : c.asleep b = false) :
    c.Served available (threads.set i b) := by
  intro hasleep
  have hsame := Threads.countP_set (p := c.asleep) hi b
  have hsignalled := Threads.countP_set (p := c.signalled) hi b
  have hmost := Bool.toNat_le (c.signalled a)
  rw [ha, hb] at hsame
  have hserved := h (by omega)
  omega

/-- **Leave.** A thread stops sleeping on its own, or does not wait here at all. -/
theorem Served.leave {i : ℕ} {a b : τ} (h : c.Served available threads)
    (hi : threads[i]? = some a) (ha : c.signalled a = false) (hb : c.asleep b = false) :
    c.Served available (threads.set i b) := by
  intro hasleep
  have hfewer := Threads.countP_set (p := c.asleep) hi b
  have hsignalled := Threads.countP_set (p := c.signalled) hi b
  rw [hb, Bool.toNat_false] at hfewer
  rw [ha, Bool.toNat_false] at hsignalled
  have hserved := h (by omega)
  omega

end CondVar

end MlinkDevice
