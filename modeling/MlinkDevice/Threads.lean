import Mathlib.Data.List.Basic
import Mathlib.Data.List.Perm.Basic

/-!
# A list of threads

Of all the threads one takes a step and the others stay as they are: what holds of each of
them, how many have a property and what they have in their hands.
-/

namespace MlinkDevice.Threads

variable {τ : Type*} {threads : List τ}

theorem forall_mem_set {P : τ → Prop} (h : ∀ t ∈ threads, P t) (i : ℕ) {b : τ} (hb : P b) :
    ∀ t ∈ threads.set i b, P t := by
  intro t ht
  rcases List.mem_or_eq_of_mem_set ht with hmem | rfl
  · exact h t hmem
  · exact hb

theorem getElem?_of_set {i j : ℕ} {a b c : τ} (h : threads[i]? = some a)
    (hj : (threads.set i b)[j]? = some c) : (j = i ∧ b = c) ∨ (j ≠ i ∧ threads[j]? = some c) := by
  by_cases heq : i = j
  · subst heq
    rw [List.getElem?_set_self (List.getElem?_eq_some_iff.mp h).1] at hj
    exact .inl ⟨rfl, Option.some.inj hj⟩
  · rw [List.getElem?_set_ne heq] at hj
    exact .inr ⟨Ne.symm heq, hj⟩

theorem countP_set {p : τ → Bool} {i : ℕ} {a : τ} (h : threads[i]? = some a) (b : τ) :
    (threads.set i b).countP p + (p a).toNat = threads.countP p + (p b).toNat := by
  induction threads generalizing i with
  | nil => simp at h
  | cons t threads ih =>
    cases i with
    | zero =>
      obtain rfl : t = a := by simpa using h
      cases hb : p b <;> cases ht : p t <;> simp [hb, ht]
    | succ i =>
      have hrest := ih (i := i) (by simpa using h)
      simp only [List.set_cons_succ, List.countP_cons]
      omega

theorem perm_filterMap_set {β : Type*} (f : τ → Option β) {i : ℕ} {a : τ}
    (h : threads[i]? = some a) (b : τ) :
    ((f a).toList ++ (threads.set i b).filterMap f).Perm ((f b).toList ++ threads.filterMap f) := by
  induction threads generalizing i with
  | nil => simp at h
  | cons t threads ih =>
    have hcons (t : τ) (l : List τ) : (t :: l).filterMap f = (f t).toList ++ l.filterMap f := by
      cases ht : f t <;> simp [ht]
    cases i with
    | zero =>
      obtain rfl : t = a := by simpa using h
      rw [List.set_cons_zero, hcons, hcons]
      exact List.perm_append_comm_assoc ..
    | succ i =>
      have hrest := (ih (i := i) (by simpa using h)).append_left (f t).toList
      rw [List.set_cons_succ, hcons, hcons]
      exact (List.perm_append_comm_assoc ..).trans (hrest.trans (List.perm_append_comm_assoc ..))

end MlinkDevice.Threads
