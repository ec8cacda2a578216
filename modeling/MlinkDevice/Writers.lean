import Mathlib.Data.List.Perm.Basic
import MlinkDevice.CStr
import MlinkDevice.Runs
import MlinkDevice.Transport

/-!
# Several threads on one socket

`mcp_server_send` hands a payload to `hwio_tcp_write` or `hwio_unix_write`, whose loop calls
`send` until all of it is gone. Nothing keeps a second thread out of the loop meanwhile.
-/

open MlinkDevice.CStr

namespace MlinkDevice

/-- A call of the write function, with the bytes from `buf` on. -/
structure WriteCall where
  payload : CStr
  left : List UInt8

/-- The calls in progress on one connection, what the peer got, and the payloads of all calls
and of those that have returned. -/
structure Wire where
  calls : List WriteCall := []
  stream : List UInt8 := []
  given : List CStr := []
  returned : List CStr := []

/-- A thread calls `mcp_server_send`, or `send` takes `n` bytes in one of the calls. -/
inductive WireAction where
  | call (payload : CStr)
  | send (call n : ℕ)

/-- The cast of the length to `uint32_t`. -/
def transportSize (payload : CStr) : ℕ := payload.strlen % 2 ^ 32

/-- One pass of the loop: what `send` takes and what is left. -/
def hwioTcpWrite (left : List UInt8) (n : ℕ) : List UInt8 × List UInt8 := (left.take n, left.drop n)

def hwioUnixWrite (left : List UInt8) (n : ℕ) : List UInt8 × List UInt8 := (left.take n, left.drop n)

def HwioOps.write : HwioOps → List UInt8 → ℕ → List UInt8 × List UInt8
  | .tcp => hwioTcpWrite
  | .unix => hwioUnixWrite

def wireStep (ops : HwioOps) (s : Wire) : WireAction → Option Wire
  | .call payload =>
    let s := { s with given := s.given ++ [payload] }
    if transportSize payload = 0 then some { s with returned := s.returned ++ [payload] }
    else some { s with
      calls := s.calls ++ [⟨payload, payload.bytes.take (transportSize payload)⟩] }
  | .send k n =>
    match s.calls[k]? with
    | none => none
    | some call =>
      if 1 ≤ n ∧ n ≤ call.left.length then
        let pass := ops.write call.left n
        let s := { s with stream := s.stream ++ pass.1 }
        if pass.2 = [] then
          some { s with calls := s.calls.eraseIdx k, returned := s.returned ++ [call.payload] }
        else some { s with calls := s.calls.set k { call with left := pass.2 } }
      else none

def WriteCall.Unsent (call : WriteCall) : Prop := call.left = call.payload.bytes

instance (call : WriteCall) : Decidable call.Unsent :=
  inferInstanceAs (Decidable (call.left = call.payload.bytes))

/-- A payload fits the cast, and `send` is called while no other payload is partly sent. -/
def Alone (s : Wire) : WireAction → Prop
  | .call payload => payload.strlen < 2 ^ 32
  | .send k _ => ∀ other ∈ s.calls.eraseIdx k, other.Unsent

instance (s : Wire) : DecidablePred (Alone s)
  | .call payload => inferInstanceAs (Decidable (payload.strlen < 2 ^ 32))
  | .send k _ => inferInstanceAs (Decidable (∀ other ∈ s.calls.eraseIdx k, other.Unsent))

/-! ## The invariant -/

/-- The stream is the payloads of the calls that have returned, and then what one call has sent
of its own. -/
def Wire.Streams (s : Wire) (part : List UInt8) : Prop :=
  s.stream = s.returned.flatMap CStr.bytes ++ part

/-- At most one call is in the middle of its payload, and no payload is lost. -/
structure Wire.Whole (s : Wire) : Prop where
  sends : (s.Streams [] ∧ ∀ call ∈ s.calls, call.Unsent) ∨
    ∃ part k call, s.Streams part ∧ s.calls[k]? = some call ∧
      part ++ call.left = call.payload.bytes ∧ ∀ other ∈ s.calls.eraseIdx k, other.Unsent
  given : (s.returned ++ s.calls.map (·.payload)).Perm s.given

theorem start_whole : ({} : Wire).Whole where
  sends := .inl ⟨rfl, fun _ h => absurd h List.not_mem_nil⟩
  given := .nil

theorem HwioOps.write_eq (ops : HwioOps) (left : List UInt8) (n : ℕ) :
    ops.write left n = (left.take n, left.drop n) := by
  cases ops <;> rfl

section Steps

variable {ops : HwioOps} {s t : Wire}

theorem Wire.Whole.sendsAt (h : s.Whole) {k : ℕ} {call : WriteCall}
    (hcall : s.calls[k]? = some call) (halone : ∀ other ∈ s.calls.eraseIdx k, other.Unsent) :
    ∃ part, s.Streams part ∧ part ++ call.left = call.payload.bytes := by
  rcases h.sends with ⟨hstream, hunsent⟩ | ⟨part, j, current, hstream, hcurrent, hpart, hothers⟩
  · exact ⟨[], hstream, hunsent call (List.mem_of_getElem? hcall)⟩
  · by_cases hjk : j = k
    · subst hjk
      obtain rfl : current = call := by simpa [hcurrent] using hcall
      exact ⟨part, hstream, hpart⟩
    · have hmem := List.mem_eraseIdx_iff_getElem?.mpr ⟨j, hjk, hcurrent⟩
      rw [halone current hmem] at hpart
      obtain rfl : part = [] := by simpa using hpart
      have hmem := List.mem_eraseIdx_iff_getElem?.mpr ⟨k, Ne.symm hjk, hcall⟩
      exact ⟨[], hstream, hothers call hmem⟩

theorem Wire.Whole.call (h : s.Whole) {payload : CStr} (hsize : payload.strlen < 2 ^ 32)
    (hstep : wireStep ops s (.call payload) = some t) : t.Whole := by
  have htransport : transportSize payload = payload.strlen := Nat.mod_eq_of_lt hsize
  simp only [wireStep, htransport] at hstep
  split at hstep
  · rename_i hempty
    obtain rfl := Option.some.inj hstep
    obtain rfl := strlen_eq_zero.mp hempty
    have hstream : ∀ part, s.Streams part →
        s.stream = (s.returned ++ [∅]).flatMap CStr.bytes ++ part := by
      intro part hpart
      rw [hpart]
      simp
    refine ⟨?_, ?_⟩
    · rcases h.sends with ⟨hpart, hunsent⟩ | ⟨part, k, call, hpart, hcall⟩
      · exact .inl ⟨hstream [] hpart, hunsent⟩
      · exact .inr ⟨part, k, call, hstream part hpart, hcall⟩
    · rw [List.append_assoc]
      exact (List.perm_append_comm.append_left s.returned).trans
        (by rw [← List.append_assoc]; exact h.given.append_right [∅])
  · obtain rfl := Option.some.inj hstep
    have hnew : WriteCall.Unsent ⟨payload, payload.bytes.take payload.strlen⟩ :=
      List.take_of_length_le le_rfl
    have happend : ∀ calls : List WriteCall, (∀ call ∈ calls, call.Unsent) →
        ∀ call ∈ calls ++ [⟨payload, payload.bytes.take payload.strlen⟩], call.Unsent :=
      fun calls hcalls => List.forall_mem_append.mpr ⟨hcalls, List.forall_mem_singleton.mpr hnew⟩
    refine ⟨?_, ?_⟩
    · rcases h.sends with ⟨hpart, hunsent⟩ | ⟨part, k, call, hpart, hcall, hbytes, hothers⟩
      · exact .inl ⟨hpart, happend _ hunsent⟩
      · obtain ⟨hlt, -⟩ := List.getElem?_eq_some_iff.mp hcall
        refine .inr ⟨part, k, call, hpart, ?_, hbytes, ?_⟩
        · dsimp only
          rw [List.getElem?_append_left hlt]
          exact hcall
        · dsimp only
          rw [List.eraseIdx_append_of_lt_length hlt]
          exact happend _ hothers
    · simp only [List.map_append, List.map_cons, List.map_nil, ← List.append_assoc]
      exact h.given.append_right [payload]

theorem Wire.Whole.send (h : s.Whole) {k n : ℕ}
    (halone : ∀ other ∈ s.calls.eraseIdx k, other.Unsent)
    (hstep : wireStep ops s (.send k n) = some t) : t.Whole := by
  cases hcall : s.calls[k]? with
  | none =>
    simp only [wireStep, hcall] at hstep
    exact absurd hstep.symm (Option.some_ne_none t)
  | some call =>
    obtain ⟨hlt, hget⟩ := List.getElem?_eq_some_iff.mp hcall
    obtain ⟨part, hpart, hbytes⟩ := h.sendsAt hcall halone
    simp only [wireStep, hcall, HwioOps.write_eq] at hstep
    obtain ⟨-, hstep⟩ := Option.ite_none_right_eq_some.mp hstep
    split at hstep
    · rename_i hdone
      obtain rfl := Option.some.inj hstep
      have hall : call.left.take n = call.left := by
        rw [← List.append_nil (List.take n call.left), ← hdone, List.take_append_drop]
      refine ⟨.inl ⟨?_, halone⟩, ?_⟩
      · unfold Wire.Streams
        dsimp only
        rw [hpart, hall, List.append_assoc, hbytes]
        simp
      · dsimp only
        have hcalls := (List.getElem_cons_eraseIdx_perm hlt).map (·.payload)
        rw [hget, List.map_cons] at hcalls
        rw [List.append_assoc]
        exact (hcalls.append_left s.returned).trans h.given
    · obtain rfl := Option.some.inj hstep
      refine ⟨.inr ⟨part ++ call.left.take n, k, { call with left := call.left.drop n }, ?_, ?_, ?_,
        ?_⟩, ?_⟩
      · unfold Wire.Streams
        dsimp only
        rw [hpart, List.append_assoc]
      · simp [hlt]
      · rw [List.append_assoc, List.take_append_drop, hbytes]
      · dsimp only
        rw [List.eraseIdx_set_eq]
        exact halone
      · dsimp only
        have hpayload : (s.calls.map (·.payload))[k]? = some call.payload := by
          rw [List.getElem?_map, hcall, Option.map_some]
        obtain ⟨_, hpayload⟩ := List.getElem?_eq_some_iff.mp hpayload
        rw [List.map_set, ← hpayload, List.set_getElem_self]
        exact h.given

/-- **Step.** What one thread writes alone leaves whole payloads and the one in progress. -/
theorem wireStep_whole (ops : HwioOps) (s : Wire) (a : WireAction) (t : Wire) (h : s.Whole)
    (halone : Alone s a) (hstep : wireStep ops s a = some t) : t.Whole := by
  cases a with
  | call payload => exact h.call halone hstep
  | send k n => exact h.send halone hstep

end Steps

/-- As long as no `send` is called in the middle of another payload, the peer gets the payloads
of the calls that have returned one after the other, and then a part of one more. When no call is
left it has got every payload. -/
theorem stream_is_payloads (ops : HwioOps) (actions : List WireAction) (s : Wire)
    (halone : Runs.Along (wireStep ops) Alone {} actions)
    (hrun : Runs.run (wireStep ops) {} actions = some s) :
    (∃ part, s.stream = s.returned.flatMap CStr.bytes ++ part ∧
      (part = [] ∨ ∃ call ∈ s.calls, part ++ call.left = call.payload.bytes)) ∧
    (s.returned ++ s.calls.map (·.payload)).Perm s.given ∧
    (s.calls = [] → s.stream = s.returned.flatMap CStr.bytes ∧ s.returned.Perm s.given) := by
  have h : s.Whole := Runs.run_invariant Wire.Whole (wireStep_whole ops) start_whole halone hrun
  refine ⟨?_, h.given, fun hcalls => ⟨?_, ?_⟩⟩
  · rcases h.sends with ⟨hstream, -⟩ | ⟨part, k, call, hstream, hcall, hbytes, -⟩
    · exact ⟨[], hstream, .inl rfl⟩
    · exact ⟨part, hstream, .inr ⟨call, List.mem_of_getElem? hcall, hbytes⟩⟩
  · rcases h.sends with ⟨hstream, -⟩ | ⟨part, k, call, -, hcall, -, -⟩
    · rw [hstream, List.append_nil]
    · rw [hcalls] at hcall
      exact absurd hcall.symm (Option.some_ne_none call)
  · simpa [hcalls] using h.given

/-- Two calls that send a byte at a time, one after the other. -/
def takingTurns : List WireAction :=
  [.call (lit "ab"), .call (lit "cd"), .send 0 1, .send 0 1, .send 0 1, .send 0 1]

theorem stream_is_payloads_turns :
    ∃ s, Runs.run (wireStep .tcp) {} takingTurns = some s ∧
      s.stream = s.returned.flatMap CStr.bytes := by
  have hrun : (Runs.run (wireStep .tcp) {} takingTurns).map (·.calls) = some [] := by rfl
  obtain ⟨s, hs, hcalls⟩ := Option.map_eq_some_iff.mp hrun
  exact ⟨s, hs, ((stream_is_payloads .tcp takingTurns s (by decide) hs).2.2 hcalls).1⟩

/-- A second thread sends its payload while the first is between two calls of `send`. -/
theorem payloads_interleaved :
    ∃ s, Runs.run (wireStep .tcp) {}
        [.call (lit "ab"), .call (lit "cd"), .send 0 1, .send 1 2, .send 0 1] = some s ∧
      s.calls = [] ∧ s.given = [lit "ab", lit "cd"] ∧ s.stream = (lit "acdb").bytes ∧
      ∀ order : List CStr, order.Perm s.given → s.stream ≠ order.flatMap CStr.bytes := by
  refine ⟨⟨[], (lit "acdb").bytes, [lit "ab", lit "cd"], [lit "cd", lit "ab"]⟩, rfl, rfl, rfl, rfl,
    fun order horder => ?_⟩
  obtain ⟨x, y, rfl⟩ := List.length_eq_two.mp horder.length_eq
  have hgiven : ∀ z ∈ [x, y], z = lit "ab" ∨ z = lit "cd" := by
    intro z hz
    rcases List.mem_cons.mp (horder.subset hz) with rfl | hz
    · exact .inl rfl
    · exact .inr (List.mem_singleton.mp hz)
  -- Either order is tried, and so is either payload twice.
  rcases hgiven x List.mem_cons_self with rfl | rfl <;>
    rcases hgiven y (List.mem_cons_of_mem _ List.mem_cons_self) with rfl | rfl <;>
    decide

end MlinkDevice
