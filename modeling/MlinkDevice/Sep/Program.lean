import MlinkDevice.Sep.Assertion

/-!
# Programs that allocate

A program allocates, reads, writes and frees blocks. A request for memory may be refused, and
the use of a block that is not allocated is a fault, for which there is no result. A triple says
that a program ends without a fault, what it makes of its part of the memory, and that it leaves
all the rest as it was.
-/

namespace MlinkDevice.Sep

variable {β α γ : Type}

/-! ## Memory -/

/-- The allocated blocks, the first address never handed out so far, and which requests for
memory are granted. -/
structure Memory (β : Type) where
  blocks : Blocks β
  next : Addr
  fresh : ∀ a, next ≤ a → blocks a = none
  grants : Addr → Bool

namespace Memory

def initial (grants : Addr → Bool) : Memory β where
  blocks := .empty
  next := 0
  fresh _ _ := rfl
  grants

/-- A request that is granted. -/
def alloc (m : Memory β) (b : β) : Memory β where
  blocks := Function.update m.blocks m.next (some b)
  next := m.next + 1
  fresh a h := by
    rw [Function.update_of_ne (Nat.ne_of_gt h)]
    exact m.fresh a (Nat.le_of_succ_le h)
  grants := m.grants

/-- A request that is refused. -/
def refuse (m : Memory β) : Memory β where
  blocks := m.blocks
  next := m.next + 1
  fresh a h := m.fresh a (Nat.le_of_succ_le h)
  grants := m.grants

/-- What an allocated block holds from now on, or the end of the block. -/
def set (m : Memory β) (a : Addr) (b : Option β) : Memory β where
  blocks := Function.update m.blocks a ((m.blocks a).bind fun _ => b)
  next := m.next
  fresh c h := by
    by_cases hc : c = a
    · subst hc
      rw [Function.update_self, m.fresh c h]
      rfl
    · rw [Function.update_of_ne hc]
      exact m.fresh c h
  grants := m.grants

end Memory

/-! ## Programs -/

abbrev Prog (β α : Type) := StateT (Memory β) Option α

def fault : Prog β α := fun _ => none

def malloc (b : β) : Prog β (Option Addr) := fun m =>
  if m.grants m.next then some (some m.next, m.alloc b) else some (none, m.refuse)

def load (a : Addr) : Prog β β := fun m => (m.blocks a).map fun b => (b, m)

def store (a : Addr) (b : β) : Prog β Unit := fun m =>
  (m.blocks a).map fun _ => ((), m.set a (some b))

/-- `free`, which does nothing with NULL. -/
def free : Option Addr → Prog β Unit
  | none => return
  | some a => fun m => (m.blocks a).map fun _ => ((), m.set a none)

/-- `realloc`, where `resize` makes the new block of the old one, if there is one. -/
def realloc (block : Option Addr) (resize : Option β → β) : Prog β (Option Addr) :=
  match block with
  | none => malloc (resize none)
  | some a => do
    let old ← load a
    match ← malloc (resize (some old)) with
    | none => return none
    | some new => do
      free (some a)
      return some new

/-! ## Triples -/

/-- The program takes a part of the memory as in `P` to one as in `Q`, and keeps the rest. -/
def Triple (P : Assertion β) (c : Prog β α) (Q : α → Assertion β) : Prop :=
  ∀ (m : Memory β) (R : Assertion β), (P * R) m.blocks →
    ∃ a m', c m = some (a, m') ∧ (Q a * R) m'.blocks

namespace Triple

variable {P P' R : Assertion β} {c : Prog β α} {Q Q' : α → Assertion β} {f : α → Prog β γ}
  {S : γ → Assertion β}

theorem frame (h : Triple P c Q) (R : Assertion β) : Triple (P * R) c fun a => Q a * R := by
  intro m K hm
  rw [mul_assoc] at hm
  obtain ⟨a, m', hc, hQ⟩ := h m (R * K) hm
  exact ⟨a, m', hc, by rwa [mul_assoc]⟩

theorem pre (h : Triple P c Q) (hP : P' ≤ P) : Triple P' c Q := by
  intro m K hm
  exact h m K (mul_le_mul_left hP K m.blocks hm)

theorem post (h : Triple P c Q) (hQ : ∀ a, Q a ≤ Q' a) : Triple P c Q' := by
  intro m K hm
  obtain ⟨a, m', hc, hQa⟩ := h m K hm
  exact ⟨a, m', hc, mul_le_mul_left (hQ a) K m'.blocks hQa⟩

theorem ret (a : α) (h : P ≤ Q a) : Triple P (pure a) Q := fun m K hm =>
  ⟨a, m, rfl, mul_le_mul_left h K m.blocks hm⟩

theorem bind (h : Triple P c Q) (hf : ∀ a, Triple (Q a) (f a) S) : Triple P (c >>= f) S := by
  intro m K hm
  obtain ⟨a, m', hc, hQ⟩ := h m K hm
  obtain ⟨b, m'', hfa, hS⟩ := hf a m' K hQ
  refine ⟨b, m'', ?_, hS⟩
  rw [show (c >>= f) m = (c m).bind fun r => f r.1 r.2 from rfl, hc]
  exact hfa

/-- **Call.** A call needs its own part of the memory, and the rest is there again after it. -/
theorem call (h : Triple P c Q) (R : Assertion β) (hP : P' = P * R)
    (hf : ∀ a, Triple (Q a * R) (f a) S) : Triple P' (c >>= f) S :=
  (h.frame R).pre (le_of_eq hP) |>.bind hf

theorem last (h : Triple P c Q) (R : Assertion β) (hP : P' = P * R)
    (hQ : ∀ a, Q a * R ≤ Q' a) : Triple P' c Q' :=
  (h.frame R).pre (le_of_eq hP) |>.post hQ

theorem exists_pre {ι : Sort*} {P : ι → Assertion β} (h : ∀ i, Triple (P i) c Q) :
    Triple (⨆ i, P i) c Q := by
  rintro m K ⟨k, l, hkl, hjoin, hP, hK⟩
  obtain ⟨i, hi⟩ := Assertion.iSup_holds.mp hP
  exact h i m K ⟨k, l, hkl, hjoin, hi, hK⟩

theorem fact_pre {φ : Prop} (h : φ → Triple P c Q) : Triple (.fact φ * P) c Q := by
  intro m K hm
  rw [mul_assoc] at hm
  obtain ⟨hφ, hP⟩ := Assertion.fact_mul_apply.mp hm
  exact h hφ m K hP

theorem of_fact {φ : Prop} (h : φ → Triple 1 c Q) : Triple (.fact φ) c Q := by
  rw [← mul_one (Assertion.fact φ)]
  exact fact_pre h

end Triple

/-! ## The operations -/

open Assertion

theorem malloc_triple (b : β) : Triple 1 (malloc b) fun r => match r with
    | none => 1
    | some a => pointsTo a b := by
  intro m R hm
  rw [one_mul] at hm
  cases hgrant : m.grants m.next with
  | false =>
    refine ⟨none, m.refuse, ?_, ?_⟩
    · rw [malloc, hgrant]
      rfl
    · rwa [one_mul]
  | true =>
    refine ⟨some m.next, m.alloc b, ?_, ?_⟩
    · rw [malloc, hgrant]
      rfl
    · refine pointsTo_mul_apply.mpr ⟨m.blocks, m.fresh m.next (le_refl _), ?_, hm⟩
      funext c
      by_cases hc : c = m.next
      · simp [Memory.alloc, Blocks.join, hc]
      · simp [Memory.alloc, Blocks.join, Blocks.single_of_ne b hc, hc]

theorem load_triple (a : Addr) (b : β) :
    Triple (pointsTo a b) (load a) fun r => fact (r = b) * pointsTo a b := by
  intro m R hm
  refine ⟨b, m, ?_, ?_⟩
  · rw [load, pointsTo_allocated hm]
    rfl
  · simpa only [fact_of, one_mul] using hm

/-- **Load.** What is read of a block is what the block is known to hold. -/
theorem Triple.load {a : Addr} {b : β} {P R : Assertion β} {f : β → Prog β γ}
    {S : γ → Assertion β} (hP : P = pointsTo a b * R) (hf : Triple (pointsTo a b * R) (f b) S) :
    Triple P (Sep.load a >>= f) S := by
  refine Triple.call (load_triple a b) R hP fun c => ?_
  rw [mul_assoc]
  refine Triple.fact_pre fun hc => ?_
  rwa [hc]

theorem set_blocks {m : Memory β} {a : Addr} {b : β} {R : Assertion β}
    (hm : (pointsTo a b * R) m.blocks) (c : Option β) :
    ∃ k, k a = none ∧ R k ∧ (m.set a c).blocks = Function.update k a c := by
  have hallocated := pointsTo_allocated hm
  obtain ⟨k, hk, hjoin, hR⟩ := pointsTo_mul_apply.mp hm
  refine ⟨k, hk, hR, ?_⟩
  funext x
  by_cases hx : x = a
  · subst hx
    simp [Memory.set, hallocated]
  · simp [Memory.set, hx, hjoin, Blocks.join, Blocks.single_of_ne b hx]

theorem store_triple (a : Addr) (b c : β) :
    Triple (pointsTo a b) (store a c) fun _ => pointsTo a c := by
  intro m R hm
  obtain ⟨k, hk, hR, hblocks⟩ := set_blocks hm (some c)
  refine ⟨(), m.set a (some c), ?_, ?_⟩
  · rw [store, pointsTo_allocated hm]
    rfl
  · refine pointsTo_mul_apply.mpr ⟨k, hk, ?_, hR⟩
    rw [hblocks]
    funext x
    by_cases hx : x = a
    · simp [Blocks.join, hx]
    · simp [Blocks.join, Blocks.single_of_ne c hx, hx]

theorem free_triple (a : Addr) (b : β) : Triple (pointsTo a b) (free (some a)) fun _ => 1 := by
  intro m R hm
  obtain ⟨k, hk, hR, hblocks⟩ := set_blocks hm none
  refine ⟨(), m.set a none, ?_, ?_⟩
  · change (m.blocks a).map (fun _ => ((), m.set a none)) = _
    rw [pointsTo_allocated hm]
    rfl
  · rwa [one_mul, hblocks, show Function.update k a none = k from by rw [← hk, Function.update_eq_self]]

theorem free_none_triple (P : Assertion β) : Triple P (free none) fun _ => P :=
  Triple.ret () le_rfl

/-- What a pointer that may be NULL refers to. -/
def optionally (block : Option Addr) (content : Option β) : Assertion β :=
  match block, content with
  | none, none => 1
  | some a, some b => pointsTo a b
  | _, _ => ⊥

theorem triple_bot {c : Prog β α} {Q : α → Assertion β} : Triple ⊥ c Q := by
  rintro m K ⟨k, l, -, -, hbot, -⟩
  exact hbot.elim

theorem free_optionally (block : Option Addr) (content : Option β) :
    Triple (optionally block content) (free block) fun _ => 1 := by
  unfold optionally
  split
  · exact Triple.ret () le_rfl
  · exact free_triple _ _
  · exact triple_bot

theorem realloc_triple (block : Option Addr) (content : Option β) (resize : Option β → β) :
    Triple (optionally block content) (realloc block resize) fun r => match r with
      | none => optionally block content
      | some a => pointsTo a (resize content) := by
  match block, content with
  | none, none => exact malloc_triple (resize none)
  | none, some b => exact triple_bot
  | some a, none => exact triple_bot
  | some a, some b =>
    refine Triple.bind (load_triple a b) fun old => Triple.fact_pre fun hold => ?_
    subst hold
    refine Triple.call (malloc_triple _) (pointsTo a old) (one_mul _).symm fun r => ?_
    cases r with
    | none =>
      rw [one_mul]
      exact Triple.ret none le_rfl
    | some new =>
      refine Triple.call (free_triple a old) (pointsTo new (resize (some old)))
        (mul_comm _ _) fun _ => ?_
      rw [one_mul]
      exact Triple.ret (some new) le_rfl

end MlinkDevice.Sep
