import Mathlib.Algebra.BigOperators.Group.List.Basic
import Mathlib.Algebra.Order.Quantale
import Mathlib.Logic.Function.Basic
import Mathlib.Order.CompletePartialOrder

/-!
# Assertions about blocks of memory

An assertion says what a part of the memory holds. The product of two assertions holds of a part
that splits into one for each. The assertions are a commutative monoid with this product, and a
quantale, so suprema say that there is something for which an assertion holds.
-/

namespace MlinkDevice.Sep

variable {β : Type*}

/-! ## Blocks -/

abbrev Addr := ℕ

/-- The allocated blocks of a part of the memory, each with what it holds. -/
abbrev Blocks (β : Type*) := Addr → Option β

namespace Blocks

def empty : Blocks β := fun _ => none

/-- No block is in both. -/
def Apart (h k : Blocks β) : Prop := ∀ a, h a = none ∨ k a = none

def join (h k : Blocks β) : Blocks β := fun a => (h a).or (k a)

def single (a : Addr) (b : β) : Blocks β := Function.update empty a (some b)

variable {h k l : Blocks β}

theorem Apart.symm (hk : h.Apart k) : k.Apart h := fun a => (hk a).symm

theorem join_comm (hk : h.Apart k) : h.join k = k.join h := by
  funext a
  rcases hk a with ha | ha <;> simp [join, ha]

theorem join_assoc (h k l : Blocks β) : (h.join k).join l = h.join (k.join l) := by
  funext a
  simp [join, Option.or_assoc]

theorem apart_join : h.Apart (k.join l) ↔ h.Apart k ∧ h.Apart l := by
  constructor
  · intro hapart
    refine ⟨fun a => ?_, fun a => ?_⟩ <;> rcases hapart a with ha | ha
    · exact .inl ha
    · exact .inr (Option.or_eq_none_iff.mp ha).1
    · exact .inl ha
    · exact .inr (Option.or_eq_none_iff.mp ha).2
  · rintro ⟨hk, hl⟩ a
    rcases hk a with ha | ha
    · exact .inl ha
    · exact (hl a).imp_right fun hb => Option.or_eq_none_iff.mpr ⟨ha, hb⟩

theorem join_apart : (h.join k).Apart l ↔ h.Apart l ∧ k.Apart l := by
  constructor
  · intro hapart
    obtain ⟨hh, hk⟩ := apart_join.mp hapart.symm
    exact ⟨hh.symm, hk.symm⟩
  · rintro ⟨hh, hk⟩
    exact (apart_join.mpr ⟨hh.symm, hk.symm⟩).symm

theorem apart_empty (h : Blocks β) : h.Apart empty := fun _ => .inr rfl

@[simp]
theorem join_empty (h : Blocks β) : h.join empty = h := by
  funext a
  simp [join, empty]

@[simp]
theorem single_self (a : Addr) (b : β) : single a b a = some b := Function.update_self ..

theorem single_of_ne {a c : Addr} (b : β) (hne : c ≠ a) : single a b c = none :=
  Function.update_of_ne hne ..

theorem single_apart {a : Addr} {b : β} : (single a b).Apart k ↔ k a = none := by
  constructor
  · intro hapart
    rcases hapart a with ha | ha
    · simp at ha
    · exact ha
  · intro ha c
    by_cases hc : c = a
    · exact .inr (hc ▸ ha)
    · exact .inl (single_of_ne b hc)

end Blocks

/-! ## Assertions -/

/-- What may hold of the blocks of a part of the memory. -/
def Assertion (β : Type*) := Blocks β → Prop

namespace Assertion

instance : CompleteLattice (Assertion β) := inferInstanceAs (CompleteLattice (Blocks β → Prop))

instance : Mul (Assertion β) where
  mul P Q := fun h => ∃ k l, Blocks.Apart k l ∧ h = k.join l ∧ P k ∧ Q l

instance : One (Assertion β) where
  one := fun h => h = Blocks.empty

variable {P Q R : Assertion β} {h k l : Blocks β}

theorem one_apply : (1 : Assertion β) h ↔ h = Blocks.empty := Iff.rfl

theorem iSup_holds {ι : Sort*} {P : ι → Assertion β} : (⨆ i, P i) h ↔ ∃ i, P i h := by
  rw [show (⨆ i, P i) h = ⨆ i, P i h from iSup_apply, iSup_Prop_eq]

protected theorem mul_comm (P Q : Assertion β) : P * Q = Q * P := by
  have hle (P Q : Assertion β) : P * Q ≤ Q * P := by
    rintro _ ⟨k, l, hkl, rfl, hP, hQ⟩
    exact ⟨l, k, hkl.symm, Blocks.join_comm hkl, hQ, hP⟩
  exact le_antisymm (hle P Q) (hle Q P)

theorem mul_assoc_le (P Q R : Assertion β) : P * Q * R ≤ P * (Q * R) := by
  rintro _ ⟨_, l, hl, rfl, ⟨h, k, hk, rfl, hP, hQ⟩, hR⟩
  obtain ⟨hhl, hkl⟩ := Blocks.join_apart.mp hl
  exact ⟨h, k.join l, Blocks.apart_join.mpr ⟨hk, hhl⟩, Blocks.join_assoc h k l, hP,
    k, l, hkl, rfl, hQ, hR⟩

protected theorem mul_one (P : Assertion β) : P * 1 = P := by
  apply le_antisymm
  · rintro _ ⟨h, k, -, rfl, hP, rfl⟩
    rwa [Blocks.join_empty]
  · intro h hP
    exact ⟨h, .empty, Blocks.apart_empty h, (Blocks.join_empty h).symm, hP, rfl⟩

/-- The product is that of a commutative monoid, with nothing at all as its unit. -/
instance : CommMonoid (Assertion β) where
  mul_comm := Assertion.mul_comm
  mul_assoc P Q R := by
    apply le_antisymm (mul_assoc_le P Q R)
    calc P * (Q * R) = R * Q * P := by rw [Assertion.mul_comm P, Assertion.mul_comm Q]
      _ ≤ R * (Q * P) := mul_assoc_le R Q P
      _ = P * Q * R := by rw [Assertion.mul_comm R, Assertion.mul_comm Q]
  one_mul P := by rw [Assertion.mul_comm, Assertion.mul_one]
  mul_one := Assertion.mul_one

instance : IsQuantale (Assertion β) where
  mul_sSup_distrib P S := by
    apply le_antisymm
    · rintro _ ⟨k, l, hkl, rfl, hP, hS⟩
      obtain ⟨Q, hQ⟩ := iSup_holds.mp (sSup_eq_iSup' S ▸ hS)
      exact iSup_holds.mpr ⟨Q.1, iSup_holds.mpr ⟨Q.2, k, l, hkl, rfl, hP, hQ⟩⟩
    · refine iSup₂_le fun Q hQ => ?_
      rintro _ ⟨k, l, hkl, rfl, hP, hQl⟩
      exact ⟨k, l, hkl, rfl, hP, le_sSup hQ l hQl⟩
  sSup_mul_distrib S P := by
    apply le_antisymm
    · rintro _ ⟨k, l, hkl, rfl, hS, hP⟩
      obtain ⟨Q, hQ⟩ := iSup_holds.mp (sSup_eq_iSup' S ▸ hS)
      exact iSup_holds.mpr ⟨Q.1, iSup_holds.mpr ⟨Q.2, k, l, hkl, rfl, hQ, hP⟩⟩
    · refine iSup₂_le fun Q hQ => ?_
      rintro _ ⟨k, l, hkl, rfl, hQl, hP⟩
      exact ⟨k, l, hkl, rfl, le_sSup hQ k hQl, hP⟩

/-! ## Facts and single blocks -/

/-- A fact that needs no memory. -/
def fact (φ : Prop) : Assertion β := ⨆ _ : φ, 1

/-- One block with what it holds. -/
def pointsTo (a : Addr) (b : β) : Assertion β := fun h => h = Blocks.single a b

@[simp]
theorem fact_true : (fact True : Assertion β) = 1 := iSup_pos trivial

theorem fact_of {φ : Prop} (hφ : φ) : (fact φ : Assertion β) = 1 := iSup_pos hφ

theorem fact_of_not {φ : Prop} (hφ : ¬φ) : (fact φ : Assertion β) = ⊥ := iSup_neg hφ

theorem fact_le (φ : Prop) : (fact φ : Assertion β) ≤ 1 := iSup_le fun _ => le_rfl

theorem fact_mul_self (φ : Prop) : (fact φ * fact φ : Assertion β) = fact φ := by
  by_cases hφ : φ
  · rw [fact_of hφ, one_mul]
  · rw [fact_of_not hφ, Quantale.bot_mul]

theorem fact_mul_apply {φ : Prop} : (fact φ * P : Assertion β) h ↔ φ ∧ P h := by
  constructor
  · rintro ⟨k, l, hkl, rfl, hk, hP⟩
    obtain ⟨hφ, rfl⟩ := iSup_holds.mp hk
    rw [Blocks.join_comm hkl, Blocks.join_empty]
    exact ⟨hφ, hP⟩
  · rintro ⟨hφ, hP⟩
    rwa [fact_of hφ, one_mul]

theorem eq_fact_mul {φ : Prop} (hφ : ∀ k, P k → φ) : P = fact φ * P := by
  refine le_antisymm (fun k hP => fact_mul_apply.mpr ⟨hφ k hP, hP⟩) ?_
  exact (mul_le_mul_left (fact_le φ) P).trans (le_of_eq (one_mul P))

theorem pointsTo_mul_apply {a : Addr} {b : β} :
    (pointsTo a b * P) h ↔ ∃ k, k a = none ∧ h = (Blocks.single a b).join k ∧ P k := by
  constructor
  · rintro ⟨_, k, hk, rfl, rfl, hP⟩
    exact ⟨k, Blocks.single_apart.mp hk, rfl, hP⟩
  · rintro ⟨k, ha, rfl, hP⟩
    exact ⟨_, k, Blocks.single_apart.mpr ha, rfl, rfl, hP⟩

theorem pointsTo_allocated {a : Addr} {b : β} (hh : (pointsTo a b * P) h) : h a = some b := by
  obtain ⟨k, -, rfl, -⟩ := pointsTo_mul_apply.mp hh
  simp [Blocks.join]

/-! ## Separation -/

/-- There is a block at that address. -/
def owns (a : Addr) : Assertion β := ⨆ b, pointsTo a b * ⊤

theorem owns_of_pointsTo (a : Addr) (b : β) (P : Assertion β) : pointsTo a b * P ≤ owns a :=
  le_iSup_of_le b (mul_le_mul_right le_top _)

theorem owns_allocated {a : Addr} (hh : (owns a : Assertion β) h) : h a ≠ none := by
  obtain ⟨b, hb⟩ := iSup_holds.mp hh
  rw [pointsTo_allocated hb]
  exact Option.some_ne_none b

theorem prod_separate {ι : Type*} (key : ι → Addr) (f : ι → Assertion β) {l : List ι}
    (hf : ∀ x ∈ l, f x ≤ owns (key x)) (hh : ((l.map f).prod * P) h) :
    (l.map key).Nodup ∧ ∀ x ∈ l, h (key x) ≠ none := by
  induction l generalizing h with
  | nil => exact ⟨List.nodup_nil, fun _ hx => absurd hx List.not_mem_nil⟩
  | cons x l ih =>
    rw [List.map_cons, List.prod_cons, mul_assoc] at hh
    obtain ⟨k, m, hkm, rfl, hk, hm⟩ := hh
    have hx := owns_allocated (hf x List.mem_cons_self k hk)
    obtain ⟨hnodup, hrest⟩ := ih (fun y hy => hf y (List.mem_cons_of_mem x hy)) hm
    refine ⟨List.nodup_cons.mpr ⟨fun hmem => ?_, hnodup⟩, fun y hy => ?_⟩
    · obtain ⟨y, hy, hkey⟩ := List.mem_map.mp hmem
      have hy' := hrest y hy
      rw [hkey] at hy'
      exact (hkm (key x)).elim hx hy'
    · rw [Blocks.join, Ne, Option.or_eq_none_iff, not_and_or]
      rcases List.mem_cons.mp hy with rfl | hy
      · exact .inl hx
      · exact .inr (hrest y hy)

end Assertion

/-! ## Products over a list -/

/-- One factor of a product, which can be another one or left out. -/
theorem prod_focus {M ι : Type*} [CommMonoid M] (f : ι → M) {l : List ι} {i : ℕ} {x : ι}
    (h : l[i]? = some x) :
    (l.map f).prod = f x * ((l.eraseIdx i).map f).prod ∧
      ∀ y, ((l.set i y).map f).prod = f y * ((l.eraseIdx i).map f).prod := by
  induction i generalizing l with
  | zero =>
    cases l with
    | nil => simp at h
    | cons z l =>
      obtain rfl : z = x := by simpa using h
      simp
  | succ i ih =>
    cases l with
    | nil => simp at h
    | cons z l =>
      obtain ⟨hsame, hset⟩ := @ih l h
      refine ⟨?_, fun y => ?_⟩
      · rw [List.map_cons, List.prod_cons, hsame, List.eraseIdx_cons_succ, List.map_cons,
          List.prod_cons, mul_left_comm]
      · rw [List.set_cons_succ, List.map_cons, List.prod_cons, hset, List.eraseIdx_cons_succ,
          List.map_cons, List.prod_cons, mul_left_comm]

end MlinkDevice.Sep
