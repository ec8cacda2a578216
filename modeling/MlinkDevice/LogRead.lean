import MlinkDevice.Queue
import MlinkDevice.Receive

/-!
# What the receive threads log

`tcp.c` and `unix.c` receive into one buffer that is never cleared, log it as a C string and pass
it on with its length. The string ends at the first NUL, wherever that comes from.
-/

open MlinkDevice.CStr

namespace MlinkDevice

/-! ## Rounds -/

/-- The buffer of a receive thread. -/
structure RecvBuffer (size : ℕ) where
  bytes : List UInt8
  length : bytes.length = size

/-- `recv` puts a chunk at the start and leaves the rest as it was. -/
def RecvBuffer.recv {size : ℕ} (buffer : RecvBuffer size) (chunk : Chunk size) :
    RecvBuffer size where
  bytes := memcpy buffer.bytes 0 chunk.bytes
  length := by
    have hfits := chunk.fits
    rw [length_memcpy (by rw [buffer.length]; omega), buffer.length]

/-- What `%s` makes of the buffer, unless there is no NUL in it and the scan runs on beyond it. -/
def RecvBuffer.string {size : ℕ} (buffer : RecvBuffer size) : Option CStr :=
  if 0 ∈ buffer.bytes then some (ofMem buffer.bytes) else none

/-- A chunk with the text that was logged for it and the bytes that the callback got. -/
structure Round (size : ℕ) where
  chunk : Chunk size
  text : Option CStr
  passed : List UInt8

/-- The loop of a receive thread, for the results of its `recv` calls. -/
def recvRounds {size : ℕ} (buffer : RecvBuffer size) : List (RecvResult size) → List (Round size)
  | [] => []
  | .data chunk :: rest =>
    let buffer := buffer.recv chunk
    ⟨chunk, buffer.string, buffer.bytes.take chunk.bytes.length⟩ :: recvRounds buffer rest
  | .closed :: _ => []
  | .interrupted :: rest => recvRounds buffer rest
  | .failed :: _ => []

def tcpRecvRounds : RecvBuffer tcpRecvBufferSize → List (RecvResult tcpRecvBufferSize) →
    List (Round tcpRecvBufferSize) := recvRounds

def unixRecvRounds : RecvBuffer unixRecvBufferSize → List (RecvResult unixRecvBufferSize) →
    List (Round unixRecvBufferSize) := recvRounds

/-- The log call stopped at a NUL in the buffer, and for that chunk it would have logged the same
text whatever was in the buffer before. -/
def Round.Safe {size : ℕ} (round : Round size) : Prop :=
  ∃ text, round.text = some text ∧
    ∀ buffer : RecvBuffer size, (buffer.recv round.chunk).string = some text

/-! ## The two views of the buffer -/

section Views

variable {size : ℕ} (buffer : RecvBuffer size) (chunk : Chunk size)

theorem recv_bytes :
    (buffer.recv chunk).bytes = chunk.bytes ++ buffer.bytes.drop chunk.bytes.length := by
  simp only [RecvBuffer.recv, memcpy, List.take_zero, List.nil_append, Nat.zero_add]

theorem passed_eq : (buffer.recv chunk).bytes.take chunk.bytes.length = chunk.bytes := by
  rw [recv_bytes, List.take_left]

theorem string_of_nul (h : 0 ∈ chunk.bytes) :
    (buffer.recv chunk).string = some (ofMem chunk.bytes) := by
  have hmem : 0 ∈ (buffer.recv chunk).bytes := by
    rw [recv_bytes]
    exact List.mem_append_left _ h
  rw [RecvBuffer.string, if_pos hmem, recv_bytes, ofMem_append_of_nul h]

end Views

theorem string_eq_none {size : ℕ} {chunk : Chunk size} (h : 0 ∉ chunk.bytes) :
    ((⟨List.replicate size 1, List.length_replicate⟩ : RecvBuffer size).recv chunk).string =
      none := by
  refine if_neg fun hmem => ?_
  rw [recv_bytes] at hmem
  rcases List.mem_append.mp hmem with hchunk | hrest
  · exact h hchunk
  · exact absurd (List.eq_of_mem_replicate (List.mem_of_mem_drop hrest)) (by decide)

/-! ## Runs -/

section Runs

variable {size : ℕ} (buffer : RecvBuffer size) (results : List (RecvResult size))

theorem rounds_chunks : (recvRounds buffer results).map Round.chunk = recvThread results := by
  induction results generalizing buffer with
  | nil => rfl
  | cons result rest ih =>
    cases result with
    | data chunk => exact congrArg (chunk :: ·) (ih _)
    | closed => rfl
    | interrupted => exact ih buffer
    | failed => rfl

theorem mem_rounds {round : Round size} (h : round ∈ recvRounds buffer results) :
    round.passed = round.chunk.bytes ∧
      ∃ before : RecvBuffer size, round.text = (before.recv round.chunk).string := by
  induction results generalizing buffer with
  | nil => exact absurd h List.not_mem_nil
  | cons result rest ih =>
    cases result with
    | data chunk =>
      rcases List.mem_cons.mp h with rfl | hrest
      · exact ⟨passed_eq buffer chunk, buffer, rfl⟩
      · exact ih _ hrest
    | closed => exact absurd h List.not_mem_nil
    | interrupted => exact ih buffer h
    | failed => exact absurd h List.not_mem_nil

theorem rounds_safe_iff : (∀ round ∈ recvRounds buffer results, round.Safe) ↔
    ∀ chunk ∈ recvThread results, 0 ∈ chunk.bytes := by
  rw [← rounds_chunks buffer results, List.forall_mem_map]
  refine forall₂_congr fun round hround => ?_
  obtain ⟨-, before, htext⟩ := mem_rounds buffer results hround
  constructor
  · rintro ⟨text, -, hsame⟩
    by_contra hnul
    exact Option.some_ne_none text ((hsame _).symm.trans (string_eq_none hnul))
  · intro hnul
    refine ⟨ofMem round.chunk.bytes, ?_, fun buffer => string_of_nul buffer _ hnul⟩
    rw [htext, string_of_nul _ _ hnul]

end Runs

/-- In a run of either thread, the log calls stay in the buffer and read the current chunk only
exactly when there is a NUL in each chunk that the thread receives. -/
theorem log_reads_iff (tcp : RecvBuffer tcpRecvBufferSize)
    (tcpResults : List (RecvResult tcpRecvBufferSize)) (unix : RecvBuffer unixRecvBufferSize)
    (unixResults : List (RecvResult unixRecvBufferSize)) :
    ((∀ round ∈ tcpRecvRounds tcp tcpResults, round.Safe) ↔
      ∀ chunk ∈ tcpRecvThread tcpResults, 0 ∈ chunk.bytes) ∧
    ((∀ round ∈ unixRecvRounds unix unixResults, round.Safe) ↔
      ∀ chunk ∈ unixRecvThread unixResults, 0 ∈ chunk.bytes) :=
  ⟨rounds_safe_iff tcp tcpResults, rounds_safe_iff unix unixResults⟩

/-- "A" after "BB" is logged as "AB", and on its own as "A". -/
theorem leftover_logged :
    ¬ ∀ buffer results, ∀ round ∈ tcpRecvRounds buffer results, round.Safe := by
  intro h
  let clear : RecvBuffer tcpRecvBufferSize := ⟨List.replicate _ 0, List.length_replicate⟩
  let before : Chunk tcpRecvBufferSize := ⟨[66, 66], by decide, by decide⟩
  let chunk : Chunk tcpRecvBufferSize := ⟨[65], by decide, by decide⟩
  have hafter : ((clear.recv before).recv chunk).string = some (lit "AB") := by decide
  have halone : (clear.recv chunk).string = some (lit "A") := by decide
  obtain ⟨text, htext, hsame⟩ := h clear [.data before, .data chunk] _
    (List.mem_cons_of_mem _ List.mem_cons_self)
  have hsame' : some (lit "AB") = some (lit "A") :=
    (hafter.symm.trans htext).trans ((hsame clear).symm.trans halone)
  exact absurd hsame' (by decide)

end MlinkDevice
