import Mathlib.Data.Int.Notation
import Mathlib.Tactic.SplitIfs

/-!
# The ends of timed waits

`calc_timeout` of `queue.c` and the same lines of `event_group_wait` add a timeout to the time
of the call. A `struct timespec` has its nanoseconds below a second.
-/

namespace MlinkDevice

/-- `struct timespec`, without the end of `time_t`. -/
structure Timespec where
  tvSec : ℤ
  tvNsec : ℤ
deriving DecidableEq

namespace Timespec

def ns (t : Timespec) : ℤ := t.tvSec * 1000000000 + t.tvNsec

def Normal (t : Timespec) : Prop := 0 ≤ t.tvNsec ∧ t.tvNsec < 1000000000

instance (t : Timespec) : Decidable t.Normal := inferInstanceAs (Decidable (_ ∧ _))

end Timespec

/-- The deadline of `queue_recv`; in C `/` and `%` round towards zero. -/
def calcTimeout (now : Timespec) (timeoutMs : Int32) : Timespec :=
  let ts : Timespec := {
    tvSec := now.tvSec + timeoutMs.toInt.tdiv 1000
    tvNsec := now.tvNsec + timeoutMs.toInt.tmod 1000 * 1000000 }
  if 1000000000 ≤ ts.tvNsec then { tvSec := ts.tvSec + 1, tvNsec := ts.tvNsec - 1000000000 } else ts

/-- The deadline of `event_group_wait`. -/
def eventGroupTimeout (now : Timespec) (timeoutMs : UInt32) : Timespec :=
  let timeout : Timespec := {
    tvSec := now.tvSec + timeoutMs.toNat / 1000
    tvNsec := now.tvNsec + timeoutMs.toNat % 1000 * 1000000 }
  if 1000000000 ≤ timeout.tvNsec then
    { tvSec := timeout.tvSec + 1, tvNsec := timeout.tvNsec - 1000000000 }
  else timeout

/-- A normal time that is so many milliseconds after the other. -/
structure Timespec.After (deadline now : Timespec) (ms : ℤ) : Prop where
  normal : deadline.Normal
  ns : deadline.ns = now.ns + ms * 1000000

theorem carry_after {now : Timespec} (hnow : now.Normal) {ms : ℤ} :
    let ts : Timespec := ⟨now.tvSec + ms / 1000, now.tvNsec + ms % 1000 * 1000000⟩
    Timespec.After (if 1000000000 ≤ ts.tvNsec then ⟨ts.tvSec + 1, ts.tvNsec - 1000000000⟩ else ts)
      now ms := by
  obtain ⟨hlow, hhigh⟩ := hnow
  have hsplit := Int.mul_ediv_add_emod ms 1000
  have hmod := Int.emod_nonneg ms (by decide : (1000 : ℤ) ≠ 0)
  have hless := Int.emod_lt_of_pos ms (by decide : (0 : ℤ) < 1000)
  dsimp only
  split_ifs
  · exact ⟨⟨by dsimp only; omega, by dsimp only; omega⟩, by simp only [Timespec.ns]; omega⟩
  · exact ⟨⟨by dsimp only; omega, by dsimp only; omega⟩, by simp only [Timespec.ns]; omega⟩

theorem calcTimeout_after {now : Timespec} (hnow : now.Normal) {timeoutMs : Int32}
    (h : 0 < timeoutMs) : (calcTimeout now timeoutMs).After now timeoutMs.toInt := by
  have hpos : 0 ≤ timeoutMs.toInt := Int.le_of_lt (Int32.lt_iff_toInt_lt.mp h)
  unfold calcTimeout
  rw [Int.tdiv_eq_ediv_of_nonneg hpos, Int.tmod_eq_emod_of_nonneg hpos]
  exact carry_after hnow

theorem eventGroupTimeout_after {now : Timespec} (hnow : now.Normal) (timeoutMs : UInt32) :
    (eventGroupTimeout now timeoutMs).After now timeoutMs.toNat :=
  carry_after hnow

end MlinkDevice
