import Mathlib.Logic.Function.Basic
import MlinkDevice.Runs

/-!
# Event groups

`event_group.c`: eight bits under a mutex, and the threads that wait for some of them. Each
section under the mutex is one step. A waiter may come back with a time-out at any moment,
also after another thread has set its bits.
-/

namespace MlinkDevice

/-! ## The group -/

/-- `BITS_MASK`. -/
def bitsMask : BitVec 8 := 0xFF

/-- `struct event_group`, without its mutex and condition variable. -/
structure EventGroup where
  bits : BitVec 8

def eventGroupCreate : EventGroup := { bits := 0 }

def eventGroupSetBit (eg : EventGroup) (eventBit : BitVec 8) : EventGroup :=
  if eventBit &&& ~~~bitsMask ≠ 0 then eg else { bits := eg.bits ||| (eventBit &&& bitsMask) }

def eventGroupClearBit (eg : EventGroup) (eventBit : BitVec 8) : EventGroup :=
  if eventBit &&& ~~~bitsMask ≠ 0 then eg else { bits := eg.bits &&& ~~~(eventBit &&& bitsMask) }

/-- The arguments of `event_group_wait`. -/
structure EventWait where
  waitBits : BitVec 8
  clearBits : BitVec 8
  waitAll : Bool
  timeoutMs : UInt32

def EventWait.conditionMet (w : EventWait) (matched : BitVec 8) : Bool :=
  if w.waitAll then matched = w.waitBits &&& bitsMask else matched ≠ 0

/-- One pass of the loop of `event_group_wait`: the result, unless the thread goes to sleep. -/
def eventGroupWait (eg : EventGroup) (w : EventWait) : Option (BitVec 8) × EventGroup :=
  let current := eg.bits &&& bitsMask
  let matched := current &&& w.waitBits
  if w.conditionMet matched then
    (some matched,
      if w.clearBits ≠ 0 then { bits := eg.bits &&& ~~~(w.clearBits &&& bitsMask) } else eg)
  else if w.timeoutMs = 0 then (some (current &&& w.waitBits), eg)
  else (none, eg)

/-- The end of `event_group_wait` after `ETIMEDOUT`. -/
def eventGroupTimedOut (eg : EventGroup) (w : EventWait) : BitVec 8 := eg.bits &&& w.waitBits

/-! ## The steps of the threads -/

/-- A call that has returned, with the bits before and after the section that it returned from. -/
structure EventReturn where
  wait : EventWait
  value : BitVec 8
  before : BitVec 8
  after : BitVec 8

/-- The group and the threads asleep in it, with the bits set so far and the returns. -/
structure EventSystem where
  group : EventGroup := eventGroupCreate
  asleep : ℕ → Option EventWait := fun _ => none
  sets : List (BitVec 8) := []
  returns : List EventReturn := []

inductive EventAction where
  | set (eventBit : BitVec 8)
  | clear (eventBit : BitVec 8)
  | wait (thread : ℕ) (w : EventWait)
  | wake (thread : ℕ)
  | timeOut (thread : ℕ)

def EventSystem.pass (s : EventSystem) (thread : ℕ) (w : EventWait) : EventSystem :=
  match eventGroupWait s.group w with
  | (some value, group) => { s with
      group
      asleep := Function.update s.asleep thread none
      returns := s.returns ++ [⟨w, value, s.group.bits, group.bits⟩] }
  | (none, group) => { s with group, asleep := Function.update s.asleep thread (some w) }

def EventSystem.expire (s : EventSystem) (thread : ℕ) (w : EventWait) : EventSystem :=
  { s with
    asleep := Function.update s.asleep thread none
    returns := s.returns ++ [⟨w, eventGroupTimedOut s.group w, s.group.bits, s.group.bits⟩] }

def eventStep (s : EventSystem) : EventAction → Option EventSystem
  | .set eventBit => some { s with
      group := eventGroupSetBit s.group eventBit
      sets := s.sets ++ [eventBit] }
  | .clear eventBit => some { s with group := eventGroupClearBit s.group eventBit }
  | .wait thread w => if (s.asleep thread).isSome then none else some (s.pass thread w)
  | .wake thread => (s.asleep thread).map (s.pass thread)
  | .timeOut thread => (s.asleep thread).map (s.expire thread)

/-! ## What a return does -/

def EventReturn.Satisfied (r : EventReturn) : Prop := r.wait.conditionMet r.value = true

instance (r : EventReturn) : Decidable r.Satisfied :=
  inferInstanceAs (Decidable (_ = true))

/-- A return that satisfies its condition has removed its `clear_bits`, and any other has
changed nothing. -/
structure EventReturn.Consumes (r : EventReturn) : Prop where
  satisfied : r.value ≠ 0 → r.Satisfied → r.after = r.before &&& ~~~r.wait.clearBits
  unsatisfied : ¬ r.Satisfied → r.after = r.before

/-- The bit is returned as satisfied by a call that clears it. -/
def EventReturn.takes (i : ℕ) (r : EventReturn) : Bool :=
  r.Satisfied && r.value.getLsbD i && r.wait.clearBits.getLsbD i

/-- The bit counts at most once for each time that it was set. -/
def EventSystem.OncePerSet (s : EventSystem) (i : ℕ) : Prop :=
  s.returns.countP (EventReturn.takes i) + (s.group.bits.getLsbD i).toNat ≤
    s.sets.countP (·.getLsbD i)

structure EventSystem.Consuming (s : EventSystem) : Prop where
  returns : ∀ r ∈ s.returns, r.Consumes
  once : ∀ i, s.OncePerSet i

/-- At a time-out, the bits do not satisfy the condition of the waiter, or none of its
`clear_bits` is set. -/
def MayTimeOut (s : EventSystem) : EventAction → Prop
  | .timeOut thread => ∀ w ∈ s.asleep thread,
      s.group.bits &&& w.waitBits ≠ 0 → w.conditionMet (s.group.bits &&& w.waitBits) = true →
        s.group.bits &&& w.clearBits = 0
  | _ => True

/-! ## One step -/

@[simp]
theorem and_bitsMask (b : BitVec 8) : b &&& bitsMask = b := BitVec.and_allOnes

@[simp]
theorem and_not_bitsMask (b : BitVec 8) : b &&& ~~~bitsMask = 0 := by
  rw [show ~~~bitsMask = (0 : BitVec 8) from rfl]
  exact BitVec.and_zero

theorem setBit_eq (eg : EventGroup) (eventBit : BitVec 8) :
    eventGroupSetBit eg eventBit = { bits := eg.bits ||| eventBit } := by
  simp [eventGroupSetBit]

theorem clearBit_eq (eg : EventGroup) (eventBit : BitVec 8) :
    eventGroupClearBit eg eventBit = { bits := eg.bits &&& ~~~eventBit } := by
  simp [eventGroupClearBit]

theorem cleared_eq (eg : EventGroup) (clearBits : BitVec 8) :
    (if clearBits ≠ 0 then { bits := eg.bits &&& ~~~clearBits } else eg) =
      ({ bits := eg.bits &&& ~~~clearBits } : EventGroup) := by
  by_cases hclear : clearBits = 0
  · rw [if_neg (not_not.mpr hclear), hclear, show ~~~(0 : BitVec 8) = BitVec.allOnes 8 from rfl,
      BitVec.and_allOnes]
  · rw [if_pos hclear]

theorem wait_cases (eg : EventGroup) (w : EventWait) :
    (w.conditionMet (eg.bits &&& w.waitBits) = true ∧ eventGroupWait eg w =
      (some (eg.bits &&& w.waitBits), { bits := eg.bits &&& ~~~w.clearBits })) ∨
    (w.conditionMet (eg.bits &&& w.waitBits) = false ∧
      eventGroupWait eg w = (some (eg.bits &&& w.waitBits), eg)) ∨
    eventGroupWait eg w = (none, eg) := by
  unfold eventGroupWait
  simp only [and_bitsMask, cleared_eq]
  cases hmet : w.conditionMet (eg.bits &&& w.waitBits) with
  | true => exact .inl ⟨rfl, rfl⟩
  | false =>
    by_cases hpoll : w.timeoutMs = 0
    · exact .inr (.inl ⟨rfl, by simp [hpoll]⟩)
    · exact .inr (.inr (by simp [hpoll]))

theorem removed_iff (bits clearBits : BitVec 8) :
    bits = bits &&& ~~~clearBits ↔ bits &&& clearBits = 0 := by
  constructor
  · intro h
    rw [h, BitVec.and_assoc, BitVec.and_comm (~~~clearBits), BitVec.and_not_self]
    exact BitVec.and_zero
  · intro h
    apply BitVec.eq_of_getLsbD_eq
    intro i hi
    have hbit : (bits &&& clearBits).getLsbD i = false := by rw [h]; simp
    rw [BitVec.getLsbD_and, Bool.and_eq_false_iff] at hbit
    rcases hbit with hbit | hbit <;>
      simp only [BitVec.getLsbD_and, BitVec.getLsbD_not, hbit, hi, decide_true, Bool.false_and,
        Bool.not_false, Bool.and_true, Bool.true_and]

theorem create_consuming : ({} : EventSystem).Consuming where
  returns _ h := absurd h List.not_mem_nil
  once i := by simp [EventSystem.OncePerSet, eventGroupCreate]

section Steps

variable {s t : EventSystem}

theorem EventSystem.Consuming.set (h : s.Consuming) (eventBit : BitVec 8) :
    EventSystem.Consuming { s with
      group := eventGroupSetBit s.group eventBit
      sets := s.sets ++ [eventBit] } := by
  refine ⟨h.returns, fun i => ?_⟩
  have honce := h.once i
  unfold EventSystem.OncePerSet at honce ⊢
  rw [setBit_eq]
  simp only [BitVec.getLsbD_or, List.countP_append, List.countP_singleton]
  cases hbit : eventBit.getLsbD i <;> cases hold : s.group.bits.getLsbD i <;>
    simp [hold] at honce ⊢ <;> omega

theorem EventSystem.OncePerSet.shrink {i : ℕ} (h : s.OncePerSet i) {bits : BitVec 8}
    (hbits : bits.getLsbD i = true → s.group.bits.getLsbD i = true) :
    s.returns.countP (EventReturn.takes i) + (bits.getLsbD i).toNat ≤
      s.sets.countP (·.getLsbD i) := by
  refine le_trans (Nat.add_le_add_left ?_ _) h
  cases hbit : bits.getLsbD i with
  | false => exact Nat.zero_le _
  | true => rw [hbits hbit]

theorem EventSystem.Consuming.clear (h : s.Consuming) (eventBit : BitVec 8) :
    EventSystem.Consuming { s with group := eventGroupClearBit s.group eventBit } := by
  refine ⟨h.returns, fun i => (h.once i).shrink ?_⟩
  rw [clearBit_eq, BitVec.getLsbD_and, Bool.and_eq_true]
  exact And.left

theorem EventSystem.Consuming.return (h : s.Consuming) (w : EventWait) {after : BitVec 8}
    (hafter : after = s.group.bits ∨ after = s.group.bits &&& ~~~w.clearBits)
    (hconsumes : EventReturn.Consumes ⟨w, s.group.bits &&& w.waitBits, s.group.bits, after⟩)
    (asleep : ℕ → Option EventWait) :
    EventSystem.Consuming { s with
      group := { bits := after }
      asleep
      returns := s.returns ++ [⟨w, s.group.bits &&& w.waitBits, s.group.bits, after⟩] } := by
  refine ⟨List.forall_mem_append.mpr ⟨h.returns, List.forall_mem_singleton.mpr hconsumes⟩, ?_⟩
  intro i
  have hless : after.getLsbD i = true → s.group.bits.getLsbD i = true := by
    rcases hafter with rfl | rfl
    · exact id
    · rw [BitVec.getLsbD_and, Bool.and_eq_true]
      exact And.left
  have hshrink := (h.once i).shrink hless
  unfold EventSystem.OncePerSet
  rw [List.countP_append, List.countP_singleton]
  cases htakes : EventReturn.takes i ⟨w, s.group.bits &&& w.waitBits, s.group.bits, after⟩ with
  | false => simpa using hshrink
  | true =>
    simp only [EventReturn.takes, Bool.and_eq_true, decide_eq_true_eq, BitVec.getLsbD_and] at htakes
    obtain ⟨⟨hsatisfied, hset, hwait⟩, hclear⟩ := htakes
    have hvalue : s.group.bits &&& w.waitBits ≠ 0 := by
      intro hzero
      have hbit := congrArg (BitVec.getLsbD · i) hzero
      simp [hset, hwait] at hbit
    have hremoved : after = s.group.bits &&& ~~~w.clearBits :=
      hconsumes.satisfied hvalue hsatisfied
    have hgone : after.getLsbD i = false := by simp [hremoved, hclear]
    have honce := h.once i
    unfold EventSystem.OncePerSet at honce
    rw [hset] at honce
    simpa [hgone] using honce

theorem EventSystem.Consuming.pass (h : s.Consuming) (thread : ℕ) (w : EventWait) :
    (s.pass thread w).Consuming := by
  unfold EventSystem.pass
  rcases wait_cases s.group w with ⟨hmet, heq⟩ | ⟨hunmet, heq⟩ | heq
  · rw [heq]
    exact h.return w (.inr rfl) ⟨fun _ _ => rfl, fun hunmet => absurd hmet hunmet⟩ _
  · rw [heq]
    refine h.return w (.inl rfl) ⟨fun _ hmet => ?_, fun _ => rfl⟩ _
    exact absurd (hunmet.symm.trans hmet) Bool.false_ne_true
  · rw [heq]
    exact ⟨h.returns, h.once⟩

/-- **Step.** Every step but a bad time-out consumes what it is satisfied by. -/
theorem eventStep_consuming (s : EventSystem) (a : EventAction) (t : EventSystem)
    (h : s.Consuming) (ha : MayTimeOut s a) (hstep : eventStep s a = some t) : t.Consuming := by
  cases a with
  | set eventBit =>
    obtain rfl := Option.some.inj hstep
    exact h.set eventBit
  | clear eventBit =>
    obtain rfl := Option.some.inj hstep
    exact h.clear eventBit
  | wait thread w =>
    obtain ⟨-, hstep⟩ := Option.ite_none_left_eq_some.mp hstep
    obtain rfl := Option.some.inj hstep
    exact h.pass thread w
  | wake thread =>
    obtain ⟨w, -, rfl⟩ := Option.map_eq_some_iff.mp hstep
    exact h.pass thread w
  | timeOut thread =>
    obtain ⟨w, hw, rfl⟩ := Option.map_eq_some_iff.mp hstep
    refine h.return w (.inl rfl) ⟨fun hvalue hmet => ?_, fun _ => rfl⟩ _
    exact (removed_iff _ _).mpr (ha w hw hvalue hmet)

theorem mayTimeOut_of_consuming (s : EventSystem) (a : EventAction) (t : EventSystem)
    (hstep : eventStep s a = some t) (h : t.Consuming) : MayTimeOut s a := by
  cases a with
  | timeOut thread =>
    obtain ⟨w, hw, rfl⟩ := Option.map_eq_some_iff.mp hstep
    intro v hv hvalue hmet
    obtain rfl : w = v := Option.some.inj (hw.symm.trans hv)
    have hconsumes := h.returns _ (List.mem_append_right _ List.mem_cons_self)
    exact (removed_iff _ _).mp (hconsumes.satisfied hvalue hmet)
  | _ => trivial

end Steps

/-! ## Any run -/

/-- In whatever order the threads take their steps, every satisfied return consumes its bits,
every other changes nothing and each bit counts once for each time that it was set, exactly
when no time-out finds bits that satisfy its waiter and that it should clear. -/
theorem events_consumed_iff {actions : List EventAction}
    (h : (Runs.run eventStep {} actions).isSome) :
    Runs.Always eventStep EventSystem.Consuming {} actions ↔
      Runs.Along eventStep MayTimeOut {} actions :=
  Runs.always_iff_along (fun _ => id) eventStep_consuming
    (fun s a t _ => mayTimeOut_of_consuming s a t) create_consuming h

def waitForFirst : EventWait := ⟨1, 1, false, 100⟩

/-- A waiter that times out before the bit is set, and one that comes after. -/
def earlyTimeOut : List EventAction :=
  [.wait 0 waitForFirst, .timeOut 0, .set 1, .wait 1 waitForFirst]

theorem events_consumed_iff_early :
    Runs.Always eventStep EventSystem.Consuming {} earlyTimeOut := by
  refine (events_consumed_iff rfl).mpr ?_
  refine ⟨trivial, ?_⟩
  rintro _ ⟨⟩
  refine ⟨?_, ?_⟩
  · rintro w ⟨⟩ hvalue
    exact absurd rfl hvalue
  · rintro _ ⟨⟩
    exact ⟨trivial, fun _ _ => ⟨trivial, fun _ _ => trivial⟩⟩

/-- The bit is set when the first waiter has timed out and does not have the mutex yet. -/
def lateTimeOut : List EventAction :=
  [.wait 0 waitForFirst, .set 1, .timeOut 0, .wait 1 waitForFirst]

/-- A bit that was set once is returned as satisfied to two waiters that clear it. -/
theorem event_returned_twice :
    ∃ s, Runs.run eventStep {} lateTimeOut = some s ∧ s.sets = [1] ∧
      s.returns.map (fun r => (r.wait, r.value)) = [(waitForFirst, 1), (waitForFirst, 1)] ∧
      ¬ Runs.Always eventStep EventSystem.Consuming {} lateTimeOut := by
  refine ⟨_, rfl, rfl, rfl, fun h => ?_⟩
  have honce := (h lateTimeOut (List.prefix_refl _) _ rfl).once 0
  exact absurd (show 2 + 0 ≤ 1 from honce) (by decide)

end MlinkDevice
