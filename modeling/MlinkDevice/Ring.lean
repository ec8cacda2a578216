import Mathlib.Data.Nat.Notation
import Mathlib.Logic.Function.Basic

/-!
# Ring buffers

Slots in a circle, and the list that some of them hold from a head on. Slots beyond that list
may hold anything.
-/

namespace MlinkDevice.Ring

variable {α : Type*} {slots : ℕ → α} {n head count : ℕ}

/-- The `count` slots from `head` on, going around at `n`. -/
def contents (slots : ℕ → α) (n head count : ℕ) : List α :=
  (List.range count).map fun i => slots ((head + i) % n)

@[simp]
theorem length_contents (slots : ℕ → α) (n head count : ℕ) :
    (contents slots n head count).length = count := by simp [contents]

theorem slot_ne {i : ℕ} (hi : i < count) (hcount : count < n) :
    (head + i) % n ≠ (head + count) % n := by
  intro heq
  have hdvd : n ∣ (head + count) - (head + i) :=
    Nat.dvd_of_mod_eq_zero (Nat.sub_mod_eq_zero_of_mod_eq heq.symm)
  have hzero : (head + count) - (head + i) = 0 := Nat.eq_zero_of_dvd_of_lt hdvd (by omega)
  omega

theorem contents_push (hcount : count < n) (x : α) :
    contents (Function.update slots ((head + count) % n) x) n head (count + 1) =
      contents slots n head count ++ [x] := by
  unfold contents
  rw [List.range_succ, List.map_append, List.map_singleton, Function.update_self]
  congr 1
  refine List.map_congr_left fun i hi => ?_
  rw [Function.update_of_ne (slot_ne (List.mem_range.mp hi) hcount)]

theorem contents_succ (slots : ℕ → α) (n head count : ℕ) :
    contents slots n head (count + 1) =
      slots (head % n) :: contents slots n ((head + 1) % n) count := by
  unfold contents
  rw [List.range_succ_eq_map, List.map_cons, List.map_map, Nat.add_zero]
  congr 1
  refine List.map_congr_left fun i _ => ?_
  rw [Function.comp_apply, Nat.mod_add_mod, Nat.succ_eq_add_one, Nat.add_assoc, Nat.add_comm 1]

end MlinkDevice.Ring
