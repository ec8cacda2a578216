import Mathlib.Algebra.BigOperators.Group.Finset.Piecewise
import Mathlib.Algebra.Order.Group.Multiset
import Mathlib.Data.Fintype.Basic

/-!
# A list and its hash buckets

A table of buckets indexes a list when each bucket holds exactly the items whose key
hashes to it, in the order of the list. A lookup in the right bucket is then a lookup
in the list.
-/

namespace MlinkDevice.Buckets

variable {α κ : Type*} {n : ℕ} [DecidableEq κ] (key : α → κ) (hash : κ → Fin n)

def Indexes (items : List α) (table : Fin n → List α) : Prop :=
  ∀ h, table h = items.filter fun a => hash (key a) = h

variable {key hash} {items : List α} {table : Fin n → List α}

omit [DecidableEq κ] in
theorem indexes_nil : Indexes key hash [] fun _ => [] := fun _ => rfl

omit [DecidableEq κ] in
theorem Indexes.append (h : Indexes key hash items table) (a : α) :
    Indexes key hash (items ++ [a])
      (Function.update table (hash (key a)) (table (hash (key a)) ++ [a])) := by
  intro b
  rw [List.filter_append]
  by_cases hb : b = hash (key a)
  · subst hb
    simp [h (hash (key a))]
  · rw [Function.update_of_ne hb, h b, List.filter_cons_of_neg (by simpa using Ne.symm hb)]
    simp

theorem Indexes.find (h : Indexes key hash items table) (k : κ) :
    (table (hash k)).find? (fun a => key a == k) = items.find? fun a => key a == k := by
  rw [h (hash k), List.find?_filter]
  congr 1
  funext a
  by_cases ha : key a = k <;> simp [ha]

omit [DecidableEq κ] in
theorem Indexes.mem (h : Indexes key hash items table) {b : Fin n} {a : α} (ha : a ∈ table b) :
    hash (key a) = b := by
  rw [h b, List.mem_filter] at ha
  simpa using ha.2

omit [DecidableEq κ] in
theorem Indexes.sum (h : Indexes key hash items table) :
    ∑ b, (table b : Multiset α) = items := by
  have hfilter : ∀ items : List α,
      ∑ b, ((items.filter fun a => hash (key a) = b : List α) : Multiset α) = items := by
    intro items
    induction items with
    | nil => simp
    | cons a items ih =>
      have hsplit : ∀ b, (((a :: items).filter fun a => hash (key a) = b : List α) : Multiset α) =
          (if hash (key a) = b then {a} else 0) +
            ((items.filter fun a => hash (key a) = b : List α) : Multiset α) := by
        intro b
        by_cases hb : hash (key a) = b
        · simp only [List.filter_cons, hb, decide_true, if_true]
          rw [Multiset.singleton_add, Multiset.cons_coe]
        · simp only [List.filter_cons, hb, decide_false, Bool.false_eq_true, if_false, zero_add]
      rw [Finset.sum_congr rfl fun b _ => hsplit b, Finset.sum_add_distrib, ih, Finset.sum_ite_eq]
      rw [if_pos (Finset.mem_univ _), Multiset.singleton_add, Multiset.cons_coe]
  rw [Finset.sum_congr rfl fun b _ => congrArg _ (h b)]
  exact hfilter items

end MlinkDevice.Buckets
