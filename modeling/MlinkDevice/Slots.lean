import Mathlib.Data.List.Nodup

/-!
# Tables in an array

The first entries of an array are in use and the others may hold anything. Entries have keys,
and no two that are in use the same.
-/

namespace MlinkDevice.Slots

variable {E κ : Type*}

/-- The loop that moves `n` entries down by one, from the one after `i` on. -/
def shiftDown : ℕ → ℕ → List E → List E
  | 0, _, slots => slots
  | n + 1, i, slots => shiftDown n (i + 1) (match slots[i + 1]? with
    | some entry => slots.set i entry
    | none => slots)

theorem getElem?_shiftDown {n i : ℕ} {slots : List E} (h : i + n < slots.length) (k : ℕ) :
    (shiftDown n i slots)[k]? = if i ≤ k ∧ k < i + n then slots[k + 1]? else slots[k]? := by
  induction n generalizing i slots with
  | zero => rw [shiftDown, if_neg (by omega)]
  | succ n ih =>
    have hnext : i + 1 < slots.length := by omega
    rw [shiftDown, List.getElem?_eq_getElem hnext]
    dsimp only
    rw [ih (by rw [List.length_set]; omega)]
    rcases Nat.lt_trichotomy k i with hlt | rfl | hgt
    · rw [if_neg (by omega), if_neg (by omega), List.getElem?_set_ne (Nat.ne_of_gt hlt)]
    · rw [if_neg (by omega), if_pos (by omega), List.getElem?_set_self (by omega),
        List.getElem?_eq_getElem hnext]
    · rw [List.getElem?_set_ne (by omega), List.getElem?_set_ne (Nat.ne_of_lt hgt)]
      split_ifs <;> first | rfl | omega

theorem length_shiftDown (n i : ℕ) (slots : List E) : (shiftDown n i slots).length = slots.length := by
  induction n generalizing i slots with
  | zero => rfl
  | succ n ih =>
    rw [shiftDown, ih]
    split
    · exact List.length_set
    · rfl

theorem take_shiftDown {i count : ℕ} {slots : List E} (hi : i < count)
    (hcount : count ≤ slots.length) :
    (shiftDown (count - 1 - i) i slots).take (count - 1) = (slots.take count).eraseIdx i := by
  refine List.ext_getElem? fun k => ?_
  rw [List.getElem?_take, getElem?_shiftDown (by omega), List.getElem?_eraseIdx]
  simp only [List.getElem?_take]
  split_ifs <;> first | rfl | omega

theorem take_push {count : ℕ} {slots : List E} (h : count < slots.length) (entry : E) :
    (slots.set count entry).take (count + 1) = slots.take count ++ [entry] := by
  rw [List.take_add_one, List.getElem?_set_self h, List.take_set_of_le (Nat.le_refl count)]
  rfl

section Keys

variable {key : E → κ} {k : κ} {entries : List E} {i : ℕ}

theorem forall_ne_of_nodup {e : E} (h : ((e :: entries).map key).Nodup) :
    ∀ e' ∈ entries, key e' ≠ key e := by
  intro e' he' heq
  rw [List.map_cons, List.nodup_cons] at h
  exact h.1 (heq ▸ List.mem_map_of_mem he')

variable [DecidableEq κ]

theorem modify_findIdx? (hnodup : (entries.map key).Nodup)
    (hi : entries.findIdx? (key · = k) = some i) (f : E → E) :
    entries.modify i f = entries.map fun e => if key e = k then f e else e := by
  induction entries generalizing i with
  | nil => simp at hi
  | cons e entries ih =>
    rw [List.findIdx?_cons] at hi
    by_cases he : key e = k
    · subst he
      obtain rfl : 0 = i := by simpa using hi
      rw [List.modify_zero_cons, List.map_cons, if_pos rfl]
      congr 1
      refine (List.map_congr_left fun e' he' => ?_).trans (List.map_id entries) |>.symm
      rw [if_neg (forall_ne_of_nodup hnodup e' he'), id]
    · obtain ⟨j, hj, rfl⟩ : ∃ j, entries.findIdx? (key · = k) = some j ∧ j + 1 = i := by
        simpa [he] using hi
      rw [List.modify_succ_cons, List.map_cons, if_neg he, ih (List.nodup_cons.mp hnodup).2 hj]

theorem eraseIdx_findIdx? (hnodup : (entries.map key).Nodup)
    (hi : entries.findIdx? (key · = k) = some i) :
    entries.eraseIdx i = entries.filter fun e => key e ≠ k := by
  induction entries generalizing i with
  | nil => simp at hi
  | cons e entries ih =>
    rw [List.findIdx?_cons] at hi
    by_cases he : key e = k
    · subst he
      obtain rfl : 0 = i := by simpa using hi
      rw [List.eraseIdx_zero, List.tail_cons, List.filter_cons_of_neg (by simp)]
      refine (List.filter_eq_self.mpr fun e' he' => ?_).symm
      exact decide_eq_true (forall_ne_of_nodup hnodup e' he')
    · obtain ⟨j, hj, rfl⟩ : ∃ j, entries.findIdx? (key · = k) = some j ∧ j + 1 = i := by
        simpa [he] using hi
      rw [List.eraseIdx_cons_succ, List.filter_cons_of_pos (by simpa using he),
        ih (List.nodup_cons.mp hnodup).2 hj]

end Keys

end MlinkDevice.Slots
