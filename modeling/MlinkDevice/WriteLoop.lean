import Mathlib.Algebra.GroupWithZero.Nat
import Mathlib.Data.List.Basic
import Mathlib.Data.List.TakeDrop
import MlinkDevice.Writers

/-!
# One payload on a socket

`hwio_tcp_write` and `hwio_unix_write`, which call `send` until all of a payload is gone. What
the calls of `send` return is a script.
-/

namespace MlinkDevice.WriteLoop

/-! ## The functions -/

/-- What one `send` returns: a count, or -1 with `EINTR` or another error, or 0. -/
inductive SendResult where
  | sent (n : ℕ)
  | eintr
  | error
  | zero
deriving DecidableEq

/-- `struct tcp_state` and `struct unix_state`: the socket of the connection, -1 without one. -/
structure State where
  sock : Int32
deriving DecidableEq

/-- What a write has done: its result unless it is still in the loop, the state, the bytes put
on the connection and the ranges of the payload that were passed to `send`. -/
structure Written where
  result : Option Int32
  state : Option State
  delivered : List UInt8
  sends : List (ℕ × ℕ)
deriving DecidableEq

/-- `tcp_close` and `unix_close`. -/
def close (state : State) : State :=
  if 0 ≤ state.sock then { state with sock := -1 } else state

def Written.after (w : Written) (range : ℕ × ℕ) (bytes : List UInt8) : Written :=
  { w with delivered := bytes ++ w.delivered, sends := range :: w.sends }

/-- The loop, from `buf` on with `left` bytes left, as long as the script goes. -/
def sendLoop (data : List UInt8) (state : State) : List SendResult → ℕ → ℕ → Written
  | [], _, left => ⟨if left = 0 then some 0 else none, some state, [], []⟩
  | r :: script, buf, left =>
    if left = 0 then ⟨some 0, some state, [], []⟩
    else match r with
      | .eintr => (sendLoop data state script buf left).after (buf, left) []
      | .error => ⟨some (-1), some (close state), [], [(buf, left)]⟩
      | .zero => ⟨some (-1), some state, [], [(buf, left)]⟩
      | .sent n => (sendLoop data state script (buf + n) (left - n)).after (buf, left)
          ((data.drop buf).take n)

/-- A write, where `hwio` is `priv` unless it is `NULL` itself. -/
def write (hwio : Option (Option State)) (data : Option (List UInt8)) (script : List SendResult) :
    Written :=
  match hwio, data with
  | some (some state), some data =>
    if data.length = 0 ∨ state.sock < 0 then ⟨some (-1), some state, [], []⟩
    else sendLoop data state script 0 data.length
  | priv, _ => ⟨some (-1), priv.join, [], []⟩

def hwioTcpWrite : Option (Option State) → Option (List UInt8) → List SendResult → Written := write

def hwioUnixWrite : Option (Option State) → Option (List UInt8) → List SendResult → Written := write

/-- The writes of one thread, each with its script, as far as they return. -/
def writes (write : Option (Option State) → Option (List UInt8) → List SendResult → Written) :
    Option State → List (List UInt8 × List SendResult) → List Written
  | _, [] => []
  | priv, (data, script) :: rest =>
    let w := write (some priv) (some data) script
    w :: if w.result.isSome then writes write w.state rest else []

/-! ## The loop -/

/-- No `send` takes nothing or more than it was given. -/
def Fits : ℕ → List SendResult → Prop
  | _, [] => True
  | left, .sent n :: script => left = 0 ∨ (1 ≤ n ∧ n ≤ left ∧ Fits (left - n) script)
  | left, _ :: script => left = 0 ∨ Fits left script

def SendResult.Fails (r : SendResult) : Prop := r = .error ∨ r = .zero

def SendResult.count : SendResult → ℕ
  | .sent n => n
  | _ => 0

/-- The bytes that these calls of `send` have taken. -/
def taken (script : List SendResult) : ℕ := (script.map SendResult.count).sum

/-- The calls of `send` have taken all, and none of them failed. -/
def Completes (script : List SendResult) (left : ℕ) : Prop :=
  ∃ k, taken (script.take k) = left ∧ ∀ r ∈ script.take k, ¬ r.Fails

/-- A call of `send` fails while bytes are left, and none before it did. -/
def Breaks (script : List SendResult) (left : ℕ) : Prop :=
  ∃ k r, script[k]? = some r ∧ r.Fails ∧ taken (script.take k) < left ∧
    ∀ r ∈ script.take k, ¬ r.Fails

/-- The script is used up with bytes left, and no call of `send` failed. -/
def RunsOut (script : List SendResult) (left : ℕ) : Prop :=
  taken script < left ∧ ∀ r ∈ script, ¬ r.Fails

/-- What the loop does from `buf` on with `left` bytes left. -/
structure Written.Loops (w : Written) (data : List UInt8) (state : State)
    (script : List SendResult) (buf left : ℕ) : Prop where
  completes : w.result = some 0 ↔ Completes script left
  breaks : w.result = some (-1) ↔ Breaks script left
  runsOut : w.result = none ↔ RunsOut script left
  used : w.result = none → w.sends.length = script.length
  delivered : w.delivered <+: data.drop buf
  all : w.result = some 0 → w.delivered.length = left
  part : w.result ≠ some 0 → w.delivered.length < left
  result : w.result = some 0 ∨ w.result = some (-1) ∨ w.result = none
  accepted : w.delivered.length = taken (script.take w.sends.length)
  ranges : ∀ k range, w.sends[k]? = some range →
    range.1 = buf + taken (script.take k) ∧ range.1 + range.2 = data.length ∧
      0 < range.2
  last : ∀ k r, script[k]? = some r → r.Fails → k < w.sends.length → k + 1 = w.sends.length
  state : w.state = some (if .error ∈ script.take w.sends.length then ⟨-1⟩ else state)

section Loop

variable {data : List UInt8} {state : State} {script : List SendResult} {buf left n : ℕ}
  {w : Written} {r : SendResult}

theorem sendLoop_zero (data : List UInt8) (state : State) (script : List SendResult) (buf : ℕ) :
    sendLoop data state script buf 0 = ⟨some 0, some state, [], []⟩ := by
  cases script <;> simp [sendLoop]

theorem taken_cons (r : SendResult) (script : List SendResult) :
    taken (r :: script) = r.count + taken script := by
  rw [taken, List.map_cons, List.sum_cons, taken]

theorem completes_cons (hleft : left ≠ 0) (hr : ¬ r.Fails) (hn : r.count ≤ left) :
    Completes (r :: script) left ↔ Completes script (left - r.count) := by
  constructor
  · rintro ⟨k, htaken, hsent⟩
    cases k with
    | zero => exact absurd htaken.symm hleft
    | succ k =>
      rw [List.take_succ_cons, taken_cons] at htaken
      refine ⟨k, by omega, fun s hs => hsent s ?_⟩
      rw [List.take_succ_cons]
      exact List.mem_cons_of_mem r hs
  · rintro ⟨k, htaken, hsent⟩
    refine ⟨k + 1, ?_, ?_⟩
    · rw [List.take_succ_cons, taken_cons]
      omega
    · rw [List.take_succ_cons]
      exact List.forall_mem_cons.mpr ⟨hr, hsent⟩

theorem breaks_cons (hr : ¬ r.Fails) (hn : r.count ≤ left) :
    Breaks (r :: script) left ↔ Breaks script (left - r.count) := by
  constructor
  · rintro ⟨k, s, hs, hfails, htaken, hsent⟩
    cases k with
    | zero =>
      obtain rfl : r = s := Option.some.inj hs
      exact absurd hfails hr
    | succ k =>
      rw [List.take_succ_cons, taken_cons] at htaken
      refine ⟨k, s, hs, hfails, by omega, fun s hs => hsent s ?_⟩
      rw [List.take_succ_cons]
      exact List.mem_cons_of_mem r hs
  · rintro ⟨k, s, hs, hfails, htaken, hsent⟩
    refine ⟨k + 1, s, hs, hfails, ?_, ?_⟩
    · rw [List.take_succ_cons, taken_cons]
      omega
    · rw [List.take_succ_cons]
      exact List.forall_mem_cons.mpr ⟨hr, hsent⟩

theorem runsOut_cons (hr : ¬ r.Fails) (hn : r.count ≤ left) :
    RunsOut (r :: script) left ↔ RunsOut script (left - r.count) := by
  rw [RunsOut, RunsOut, taken_cons, List.forall_mem_cons]
  constructor
  · rintro ⟨htaken, -, hsent⟩
    exact ⟨by omega, hsent⟩
  · rintro ⟨htaken, hsent⟩
    exact ⟨by omega, hr, hsent⟩

theorem not_completes_of_fails (hleft : left ≠ 0) (hr : r.Fails) : ¬ Completes (r :: script) left := by
  rintro ⟨k, htaken, hsent⟩
  cases k with
  | zero => exact hleft htaken.symm
  | succ k => exact hsent r (by rw [List.take_succ_cons]; exact List.mem_cons_self) hr

theorem breaks_of_fails (hleft : left ≠ 0) (hr : r.Fails) : Breaks (r :: script) left :=
  ⟨0, r, rfl, hr, Nat.pos_of_ne_zero hleft, fun _ h => absurd h List.not_mem_nil⟩

theorem not_runsOut_of_fails (hr : r.Fails) : ¬ RunsOut (r :: script) left :=
  fun h => h.2 r List.mem_cons_self hr

theorem loops_zero (data : List UInt8) (state : State) (script : List SendResult) (buf : ℕ) :
    (⟨some 0, some state, [], []⟩ : Written).Loops data state script buf 0 where
  completes := iff_of_true rfl ⟨0, rfl, fun _ h => absurd h List.not_mem_nil⟩
  breaks := iff_of_false (fun h => absurd (Option.some.inj h) (by decide))
    fun ⟨_, _, _, _, h, _⟩ => Nat.not_lt_zero _ h
  runsOut := iff_of_false (Option.some_ne_none 0) fun h => Nat.not_lt_zero _ h.1
  used h := absurd h (Option.some_ne_none 0)
  delivered := List.nil_prefix
  all _ := rfl
  part h := absurd rfl h
  result := .inl rfl
  accepted := rfl
  ranges _ _ h := absurd h (by simp)
  last _ _ _ _ h := absurd h (Nat.not_lt_zero _)
  state := rfl

theorem Written.Loops.after (h : w.Loops data state script (buf + n) (left - n)) (hn : n ≤ left)
    (hleft : left ≠ 0) (hbuf : buf + left = data.length) (hr : ¬ r.Fails) (hcount : r.count = n) :
    (w.after (buf, left) ((data.drop buf).take n)).Loops data state (r :: script) buf left := by
  have htaken : ((data.drop buf).take n).length = n := by
    rw [List.length_take, List.length_drop]
    omega
  have htotal (script : List SendResult) : taken (r :: script) = n + taken script := by
    rw [taken_cons, hcount]
  have hn' : r.count ≤ left := hcount ▸ hn
  refine ⟨?_, ?_, ?_, fun hresult => ?_, ?_, fun hresult => ?_, fun hresult => ?_, h.result, ?_,
    fun k range hk => ?_, fun k r' hk hfails hlt => ?_, ?_⟩
  · rw [completes_cons hleft hr hn', hcount]
    exact h.completes
  · rw [breaks_cons hr hn', hcount]
    exact h.breaks
  · rw [runsOut_cons hr hn', hcount]
    exact h.runsOut
  · rw [Written.after, List.length_cons, List.length_cons, h.used hresult]
  · have hdelivered := h.delivered
    rw [← List.drop_drop] at hdelivered
    have hpart := (List.prefix_append_right_inj ((data.drop buf).take n)).mpr hdelivered
    rwa [List.take_append_drop] at hpart
  · have hall := h.all hresult
    rw [Written.after, List.length_append, htaken, hall]
    omega
  · have hpart := h.part hresult
    rw [Written.after, List.length_append, htaken]
    omega
  · rw [Written.after, List.length_append, htaken, h.accepted]
    exact (htotal _).symm
  · cases k with
    | zero =>
      obtain rfl : (buf, left) = range := by simpa [Written.after] using hk
      exact ⟨rfl, hbuf, Nat.pos_of_ne_zero hleft⟩
    | succ k =>
      obtain ⟨hoffset, hrange⟩ := h.ranges k range (by simpa [Written.after] using hk)
      refine ⟨?_, hrange⟩
      rw [List.take_succ_cons, htotal, hoffset, Nat.add_assoc]
  · rw [Written.after, List.length_cons] at hlt ⊢
    cases k with
    | zero =>
      obtain rfl : r = r' := by simpa using hk
      exact absurd hfails hr
    | succ k =>
      exact congrArg (· + 1) (h.last k r' (by simpa using hk) hfails (Nat.lt_of_succ_lt_succ hlt))
  · have hne : SendResult.error ≠ r := fun heq => hr (.inl heq.symm)
    rw [Written.after, h.state]
    simp only [List.length_cons, List.take_succ_cons, List.mem_cons, hne, false_or]

theorem loops_failed (hleft : left ≠ 0) (hbuf : buf + left = data.length) (hr : r.Fails)
    (hcount : r.count = 0) :
    (⟨some (-1), some (if .error = r then ⟨-1⟩ else state), [], [(buf, left)]⟩ : Written).Loops
      data state (r :: script) buf left where
  completes := iff_of_false (fun h => absurd (Option.some.inj h) (by decide))
    (not_completes_of_fails hleft hr)
  breaks := iff_of_true rfl (breaks_of_fails hleft hr)
  runsOut := iff_of_false (Option.some_ne_none (-1)) (not_runsOut_of_fails hr)
  used h := absurd h (Option.some_ne_none (-1))
  delivered := List.nil_prefix
  all h := absurd (Option.some.inj h) (by decide)
  part _ := Nat.pos_of_ne_zero hleft
  result := .inr (.inl rfl)
  accepted := by simp [taken, hcount]
  ranges k range h := by
    obtain ⟨rfl, rfl⟩ : k = 0 ∧ (buf, left) = range := by
      simpa [List.getElem?_singleton] using h
    exact ⟨rfl, hbuf, Nat.pos_of_ne_zero hleft⟩
  last k _ _ _ h := congrArg (· + 1) (Nat.lt_one_iff.mp h)
  state := by simp

theorem sendLoop_loops (hsock : 0 ≤ state.sock) (hbuf : buf + left = data.length)
    (hfits : Fits left script) :
    (sendLoop data state script buf left).Loops data state script buf left := by
  induction script generalizing buf left with
  | nil =>
    by_cases hleft : left = 0
    · subst hleft
      rw [sendLoop_zero]
      exact loops_zero ..
    · simp only [sendLoop, if_neg hleft]
      have hpos := Nat.pos_of_ne_zero hleft
      refine ⟨iff_of_false nofun ?_, iff_of_false nofun ?_, iff_of_true rfl ⟨hpos, nofun⟩,
        fun _ => rfl, List.nil_prefix, nofun, fun _ => hpos, .inr (.inr rfl), rfl, nofun, nofun, rfl⟩
      · rintro ⟨k, htaken, -⟩
        rw [List.take_nil] at htaken
        exact hleft htaken.symm
      · rintro ⟨k, r, hr, -⟩
        exact absurd hr.symm (Option.some_ne_none r)
  | cons r script ih =>
    by_cases hleft : left = 0
    · subst hleft
      rw [sendLoop_zero]
      exact loops_zero ..
    simp only [sendLoop, if_neg hleft]
    cases r with
    | sent n =>
      obtain ⟨-, hn, hrest⟩ := hfits.resolve_left hleft
      exact (ih (by omega) hrest).after hn hleft hbuf (by simp [SendResult.Fails]) rfl
    | eintr =>
      have hloops := ih hbuf (hfits.resolve_left hleft)
      exact hloops.after (n := 0) (Nat.zero_le _) hleft hbuf (by simp [SendResult.Fails]) rfl
    | error =>
      have hclose : close state = ⟨-1⟩ := by simp [close, hsock]
      rw [hclose]
      have hfailed : Written.Loops _ data state (.error :: script) buf left :=
        loops_failed hleft hbuf (.inl rfl) rfl
      exact hfailed
    | zero =>
      have hfailed : Written.Loops _ data state (.zero :: script) buf left :=
        loops_failed hleft hbuf (.inr rfl) rfl
      exact hfailed

end Loop

/-! ## A write -/

/-- A pass of the loop that puts bytes on the connection is one of the steps of several threads. -/
theorem sendLoop_sent (data : List UInt8) (state : State) (n : ℕ) (script : List SendResult)
    (buf : ℕ) {left : ℕ} (hleft : left ≠ 0) :
    sendLoop data state (.sent n :: script) buf left =
        (sendLoop data state script (buf + n) (left - n)).after (buf, left)
          (MlinkDevice.hwioTcpWrite (data.drop buf) n).1 ∧
      (MlinkDevice.hwioTcpWrite (data.drop buf) n).2 = data.drop (buf + n) := by
  refine ⟨?_, List.drop_drop⟩
  simp only [sendLoop, if_neg hleft]
  rfl

/-- What a write does to a payload on an open connection. It returns 0 once `send` has taken all
of the payload, -1 when `send` fails before, and is in the loop only as long as neither has
happened. Each `send` gets all that is left of the payload, and something is, and none comes after
one that failed. -/
structure Written.Writes (w : Written) (data : List UInt8) (script : List SendResult) : Prop where
  completes : w.result = some 0 ↔ Completes script data.length
  breaks : w.result = some (-1) ↔ Breaks script data.length
  runsOut : w.result = none ↔ RunsOut script data.length
  used : w.result = none → w.sends.length = script.length
  delivered : w.delivered <+: data
  accepted : w.delivered.length = taken (script.take w.sends.length)
  all : w.result = some 0 ↔ w.delivered = data
  part : w.result = some (-1) → w.delivered ≠ data
  result : w.result = some 0 ∨ w.result = some (-1) ∨ w.result = none
  ranges : ∀ k range, w.sends[k]? = some range →
    range.1 = taken (script.take k) ∧ range.1 + range.2 = data.length ∧ 0 < range.2
  last : ∀ k r, script[k]? = some r → r.Fails → k < w.sends.length → k + 1 = w.sends.length

/-- Nothing is put on a connection by a write that returns -1 without a `send`. -/
def Written.Refused (w : Written) : Prop :=
  w.result = some (-1) ∧ w.delivered = [] ∧ w.sends = []

theorem write_closed {priv : Option State} (h : ∀ state, priv = some state → state.sock < 0)
    (data : List UInt8) (script : List SendResult) :
    (write (some priv) (some data) script).Refused ∧
      (write (some priv) (some data) script).state = priv := by
  cases priv with
  | none => exact ⟨⟨rfl, rfl, rfl⟩, rfl⟩
  | some state =>
    rw [write, if_pos (.inr (h state rfl))]
    exact ⟨⟨rfl, rfl, rfl⟩, rfl⟩

/-- **Run.** On a closed socket every write is refused. -/
theorem writes_closed {priv : Option State} (h : ∀ state, priv = some state → state.sock < 0)
    (later : List (List UInt8 × List SendResult)) : ∀ w ∈ writes write priv later, w.Refused := by
  induction later with
  | nil => exact fun w hw => absurd hw List.not_mem_nil
  | cons call later ih =>
    obtain ⟨data, script⟩ := call
    obtain ⟨hrefused, hstate⟩ := write_closed h data script
    rw [writes, hstate]
    refine List.forall_mem_cons.mpr ⟨hrefused, ?_⟩
    split_ifs
    · exact ih
    · exact fun w hw => absurd hw List.not_mem_nil

/-- Whatever `send` does, a write puts a prefix of its payload on the connection, and returns as
soon as that is all of it, with 0, or a `send` fails, with -1. After an error every later write is
refused. -/
theorem hwio_write_loop {state : State} {data : List UInt8} {script : List SendResult}
    (hsock : 0 ≤ state.sock) (hdata : data ≠ []) (hfits : Fits data.length script) :
    ∀ write ∈ [hwioTcpWrite, hwioUnixWrite],
      (write (some (some state)) (some data) script).Writes data script ∧
      (.error ∈ script.take (write (some (some state)) (some data) script).sends.length →
        (write (some (some state)) (some data) script).state = some ⟨-1⟩ ∧
        ∀ later, ∀ w ∈ writes write (write (some (some state)) (some data) script).state later,
          w.Refused) ∧
      ∀ hwio data script, write hwio data script = hwioTcpWrite hwio data script := by
  have hloops := sendLoop_loops hsock (Nat.zero_add data.length) hfits
  have hnonempty : ¬ (data.length = 0 ∨ state.sock < 0) := by
    rintro (hempty | hclosed)
    · exact hdata (List.length_eq_zero_iff.mp hempty)
    · exact absurd hclosed (Int32.not_lt.mpr hsock)
  have hwrite : write (some (some state)) (some data) script =
      sendLoop data state script 0 data.length := if_neg hnonempty
  rw [← hwrite] at hloops
  have hwrites : (write (some (some state)) (some data) script).Writes data script := by
    have hpart : (write (some (some state)) (some data) script).delivered <+: data :=
      hloops.delivered
    refine ⟨hloops.completes, hloops.breaks, hloops.runsOut, hloops.used, hpart, hloops.accepted,
      ⟨fun hresult => ?_, fun hall => ?_⟩, fun hresult hall => ?_, hloops.result, ?_, hloops.last⟩
    · exact hpart.eq_of_length (hloops.all hresult)
    · by_contra hresult
      exact absurd (congrArg List.length hall) (Nat.ne_of_lt (hloops.part hresult))
    · exact absurd (congrArg List.length hall) (Nat.ne_of_lt (hloops.part (by rw [hresult]; decide)))
    · simpa using hloops.ranges
  have hlater (herror : .error ∈
      script.take (write (some (some state)) (some data) script).sends.length) :
      (write (some (some state)) (some data) script).state = some ⟨-1⟩ ∧
      ∀ later, ∀ w ∈ writes write (write (some (some state)) (some data) script).state later,
        w.Refused := by
    have hclosed := hloops.state
    rw [if_pos herror] at hclosed
    rw [hclosed]
    refine ⟨rfl, writes_closed fun state hstate => ?_⟩
    obtain rfl := Option.some.inj hstate
    decide
  intro other hother
  obtain rfl : other = write := by simpa [hwioTcpWrite, hwioUnixWrite] using hother
  exact ⟨hwrites, hlater, fun _ _ _ => rfl⟩

/-- A short count, an interrupted call and an error. -/
def shortWrite : List SendResult := [.sent 1, .eintr, .error, .sent 2]

theorem hwio_write_loop_short :
    (hwioTcpWrite (some (some ⟨5⟩)) (some [7, 8, 9]) shortWrite).Writes [7, 8, 9] shortWrite ∧
      (hwioTcpWrite (some (some ⟨5⟩)) (some [7, 8, 9]) shortWrite).delivered = [7] ∧
      (hwioTcpWrite (some (some ⟨5⟩)) (some [7, 8, 9]) shortWrite).state = some ⟨-1⟩ := by
  obtain ⟨hwrites, hlater, -⟩ := @hwio_write_loop ⟨5⟩ [7, 8, 9] shortWrite (by decide) (by decide)
    (by simp [Fits, shortWrite]) hwioTcpWrite List.mem_cons_self
  exact ⟨hwrites, by decide, (hlater (by decide)).1⟩

end MlinkDevice.WriteLoop
