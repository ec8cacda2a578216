import Mathlib.Data.List.Nodup
import Mathlib.Order.Nat

/-!
# Reading a list page by page

A page takes items until it meets one that it does not admit. The key of that item is
the cursor with which the next page resumes. The list may grow at its end between two
pages.
-/

namespace MlinkDevice.Paging

variable {α κ : Type*}

/-- The items of a page that starts with `page` and goes through a list, and the items it leaves. -/
def fill (admits : List α → α → Bool) : List α → List α → List α × List α
  | page, [] => (page, [])
  | page, x :: xs => if admits page x then fill admits (page ++ [x]) xs else (page, x :: xs)

/-- The list from the item with that key on. Without a cursor it is the whole list. -/
def resume [DecidableEq κ] (key : α → κ) (cursor : Option κ) (xs : List α) : List α :=
  match cursor with
  | none => xs
  | some c => xs.dropWhile fun x => key x != c

/-! ## One page -/

section Fill

variable {admits : List α → α → Bool}

theorem fill_append (admits : List α → α → Bool) (page xs : List α) :
    (fill admits page xs).1 ++ (fill admits page xs).2 = page ++ xs := by
  induction xs generalizing page with
  | nil => simp [fill]
  | cons x xs ih =>
    simp only [fill]
    split
    · rw [ih, List.append_assoc, List.singleton_append]
    · rfl

theorem fill_stop {page xs rest : List α} {x : α} (h : (fill admits page xs).2 = x :: rest) :
    admits (fill admits page xs).1 x = false := by
  induction xs generalizing page with
  | nil => simp [fill] at h
  | cons y ys ih =>
    simp only [fill] at h ⊢
    by_cases hy : admits page y = true
    · rw [if_pos hy] at h ⊢
      exact ih h
    · rw [if_neg hy] at h ⊢
      obtain ⟨rfl, -⟩ := List.cons.inj h
      simpa using hy

theorem fill_taken (admits : List α → α → Bool) (page xs : List α) :
    ∃ taken, (fill admits page xs).1 = page ++ taken ∧
      ∀ before x after, taken = before ++ x :: after → admits (page ++ before) x = true := by
  induction xs generalizing page with
  | nil => exact ⟨[], by simp [fill], by simp⟩
  | cons y ys ih =>
    simp only [fill]
    by_cases hy : admits page y = true
    · obtain ⟨taken, htaken, hadmits⟩ := ih (page ++ [y])
      refine ⟨y :: taken, by rw [if_pos hy, htaken]; simp, ?_⟩
      intro before x after hsplit
      cases before with
      | nil =>
        obtain ⟨rfl, -⟩ := List.cons.inj hsplit
        simpa using hy
      | cons b before =>
        obtain ⟨rfl, htail⟩ := List.cons.inj hsplit
        rw [← List.singleton_append, ← List.append_assoc]
        exact hadmits before x after htail
    · exact ⟨[], by rw [if_neg hy]; simp, by simp⟩

theorem fill_admitted {xs before after : List α} {x : α}
    (h : (fill admits [] xs).1 = before ++ x :: after) : admits before x = true := by
  obtain ⟨taken, htaken, hadmits⟩ := fill_taken admits [] xs
  exact hadmits before x after (by rw [← h, htaken, List.nil_append])

theorem fill_skip {before : List α} (page after : List α)
    (h : ∀ b x a, before = b ++ x :: a → admits (page ++ b) x = true) :
    fill admits page (before ++ after) = fill admits (page ++ before) after := by
  induction before generalizing page with
  | nil => simp
  | cons y before ih =>
    have hy : admits page y = true := by simpa using h [] y before rfl
    rw [List.cons_append, fill, if_pos hy, ih]
    · rw [List.append_assoc, List.singleton_append]
    · intro b x a hsplit
      simpa using h (y :: b) x a (by rw [hsplit, List.cons_append])

theorem fill_ne_nil {x : α} {xs : List α} (h : admits [] x = true) :
    (fill admits [] (x :: xs)).1 ≠ [] := by
  intro hnil
  have happend := fill_append admits [] (x :: xs)
  rw [hnil, List.nil_append, List.nil_append] at happend
  have := fill_stop happend
  rw [hnil, h] at this
  exact Bool.noConfusion this

end Fill

section Resume

variable [DecidableEq κ] {key : α → κ}

/-- With distinct keys, a page resumes exactly at the item whose key it is given. -/
theorem resume_split {before after : List α} {x : α}
    (h : ((before ++ x :: after).map key).Nodup) :
    resume key (some (key x)) (before ++ x :: after) = x :: after := by
  have hbefore : ∀ y ∈ before, (key y != key x) = true := by
    intro y hy
    rw [List.map_append, List.nodup_append] at h
    simpa using h.2.2 (key y) (List.mem_map_of_mem hy) (key x) (by simp)
  rw [resume, List.dropWhile_append_of_pos hbefore]
  simp

theorem resume_head {cursor : κ} {xs rest : List α} {x : α}
    (h : resume key (some cursor) xs = x :: rest) : key x = cursor := by
  have hhead := List.head?_dropWhile_not (fun x => key x != cursor) xs
  simp only [resume] at h
  simpa [h] using hhead

theorem resume_suffix (key : α → κ) (cursor : Option κ) (xs : List α) : resume key cursor xs <:+ xs := by
  cases cursor with
  | none => exact List.suffix_refl xs
  | some c => exact List.dropWhile_suffix _

end Resume

/-! ## Page after page -/

section Read

variable [DecidableEq κ] (admits : List α → α → Bool) (key : α → κ) (views : ℕ → List α)

/-- What page `n` takes and leaves, when the list is `views n` as it is asked for. -/
def read : ℕ → List α × List α
  | 0 => fill admits [] (views 0)
  | n + 1 => fill admits [] (resume key ((read n).2.head?.map key) (views (n + 1)))

def listed (n : ℕ) : List α := (List.range (n + 1)).flatMap fun i => (read admits key views i).1

/-- The pages before page `n` have left something, and page `n` has not. -/
def StopsAt (n : ℕ) : Prop :=
  (∀ i < n, (read admits key views i).2 ≠ []) ∧ (read admits key views n).2 = []

structure Growing : Prop where
  prefix_succ : ∀ n, views n <+: views (n + 1)
  nodup : ∀ n, ((views n).map key).Nodup

variable {admits key views}

theorem listed_succ (n : ℕ) : listed admits key views (n + 1) =
    listed admits key views n ++ (read admits key views (n + 1)).1 := by
  simp [listed, List.range_succ (n := n + 1)]

/-- What page `n + 1` takes and leaves is what page `n` left and what was added since. -/
theorem listed_append (h : Growing key views) (n : ℕ)
    (hopen : ∀ i < n, (read admits key views i).2 ≠ []) :
    listed admits key views n ++ (read admits key views n).2 = views n := by
  induction n with
  | zero => simp [listed, read, fill_append]
  | succ n ih =>
    have hn := ih fun i hi => hopen i (by omega)
    obtain ⟨x, rest, hrest⟩ := List.exists_cons_of_ne_nil (hopen n (by omega))
    obtain ⟨more, hmore⟩ := h.prefix_succ n
    have hview : views (n + 1) = listed admits key views n ++ x :: (rest ++ more) := by
      rw [← hmore, ← hn, hrest, List.append_assoc, List.cons_append]
    have hresume : resume key ((read admits key views n).2.head?.map key) (views (n + 1)) =
        x :: (rest ++ more) := by
      rw [hrest, hview, List.head?_cons, Option.map_some]
      exact resume_split (hview ▸ h.nodup (n + 1))
    rw [listed_succ, List.append_assoc, read, fill_append, hresume, List.nil_append, hview]

theorem StopsAt.listed (h : Growing key views) {n : ℕ} (hn : StopsAt admits key views n) :
    Paging.listed admits key views n = views n := by
  have := listed_append h n hn.1
  rwa [hn.2, List.append_nil] at this

theorem read_eq_fill (admits : List α → α → Bool) (key : α → κ) (views : ℕ → List α) (n : ℕ) :
    ∃ xs, xs <:+ views n ∧ read admits key views n = fill admits [] xs := by
  cases n with
  | zero => exact ⟨_, List.suffix_refl _, rfl⟩
  | succ n => exact ⟨_, resume_suffix _ _ _, rfl⟩

theorem mem_of_mem_left {n : ℕ} {x : α} (hx : x ∈ (read admits key views n).2) : x ∈ views n := by
  obtain ⟨xs, hxs, hread⟩ := read_eq_fill admits key views n
  rw [hread] at hx
  apply hxs.mem
  rw [← List.nil_append xs, ← fill_append admits [] xs]
  exact List.mem_append_right _ hx

theorem read_ne_nil (n : ℕ) (hfits : ∀ x ∈ views n, admits [] x = true)
    (hn : (read admits key views n).2 ≠ []) : (read admits key views n).1 ≠ [] := by
  obtain ⟨xs, hxs, hread⟩ := read_eq_fill admits key views n
  rw [hread] at hn ⊢
  cases xs with
  | nil => simp [fill] at hn
  | cons x xs => exact fill_ne_nil (hfits x (hxs.mem (by simp)))

theorem le_length_listed (n : ℕ) (hfits : ∀ n, ∀ x ∈ views n, admits [] x = true)
    (hopen : ∀ i ≤ n, (read admits key views i).2 ≠ []) :
    n + 1 ≤ (Paging.listed admits key views n).length := by
  induction n with
  | zero =>
    have := List.length_pos_iff.mpr (read_ne_nil 0 (hfits 0) (hopen 0 (le_refl 0)))
    simp [Paging.listed]
    omega
  | succ n ih =>
    have hn := ih fun i hi => hopen i (by omega)
    have := List.length_pos_iff.mpr (read_ne_nil (n + 1) (hfits _) (hopen _ (le_refl _)))
    rw [listed_succ, List.length_append]
    omega

theorem StopsAt.le_length (h : Growing key views) (hfits : ∀ n, ∀ x ∈ views n, admits [] x = true)
    {n : ℕ} (hn : StopsAt admits key views n) : n ≤ (views n).length := by
  cases n with
  | zero => omega
  | succ n =>
    have hlength := le_length_listed n hfits fun i hi => hn.1 i (by omega)
    have hle := congrArg List.length (hn.listed h)
    rw [listed_succ, List.length_append] at hle
    omega

theorem exists_first (h : ∃ n, (read admits key views n).2 = []) :
    ∃ n, StopsAt admits key views n := by
  classical
  exact ⟨Nat.find h, fun i hi => Nat.find_min h hi, Nat.find_spec h⟩

/-- Where every item alone is admitted and the list stops growing, the reader comes to an end. -/
theorem exists_stopsAt (h : Growing key views) (hfits : ∀ n, ∀ x ∈ views n, admits [] x = true)
    {bound : ℕ} (hbound : ∀ n, (views n).length ≤ bound) : ∃ n, StopsAt admits key views n := by
  apply exists_first
  by_contra hnone
  push Not at hnone
  have hlength := le_length_listed bound hfits fun i _ => hnone i
  have := congrArg List.length (listed_append h bound fun i _ => hnone i)
  rw [List.length_append] at this
  have := hbound bound
  omega

theorem StopsAt.admitted (h : Growing key views) {n : ℕ} (hn : StopsAt admits key views n) {x : α}
    (hx : x ∈ views n) : ∃ page, admits page x = true := by
  rw [← hn.listed h, Paging.listed, List.mem_flatMap] at hx
  obtain ⟨i, -, hx⟩ := hx
  obtain ⟨before, after, hsplit⟩ := List.append_of_mem hx
  cases i with
  | zero => exact ⟨before, fill_admitted hsplit⟩
  | succ i => exact ⟨before, fill_admitted hsplit⟩

end Read

end MlinkDevice.Paging
