import MlinkDevice.Dispatch

/-!
# The id of a reply

A client tells the replies to its requests apart by their ids. The id of a request is read
as an `int`, and a larger number is cut to the nearest one.
-/

open MlinkDevice.CStr

namespace MlinkDevice

variable {W : Type} {L : CJsonLib}

/-- The message is a request with that integer as its id. -/
def HasId (L : CJsonLib) (message : CStr) (n : ℤ) : Prop :=
  ∃ json, L.parse message = some json ∧ (readRequest json).isSome ∧
    json.getObjectItem (lit "id") = some (.number n)

/-- The server answers the message with one reply, and that is the reply's id. -/
def RepliesWith (L : CJsonLib) (server : McpServer W) (message : CStr) (w : W) (n : ℤ) : Prop :=
  ∃ payload reply, payloads (mcpServerParseMessage L server message w).1 = [payload] ∧
    L.parse payload = some reply ∧ reply.member (lit "id") = some (.number n)

/-! ## The id that the server reads -/

theorem readRequest_id {json : CJson} {r : Request} {n : ℤ} (hread : readRequest json = some r)
    (hid : json.getObjectItem (lit "id") = some (.number n)) : r.id = CJson.valueint n := by
  obtain ⟨id, -, hid', -, hr⟩ := readRequest_eq_some hread
  obtain rfl : id = n := by simpa [hid'] using hid
  exact hr

theorem HasId.requestOf {message : CStr} {n : ℤ} (h : HasId L message n) :
    ∃ r, MlinkDevice.requestOf L message = some r ∧ r.id = CJson.valueint n := by
  obtain ⟨json, hparse, hread, hid⟩ := h
  obtain ⟨r, hr⟩ := Option.isSome_iff_exists.mp hread
  refine ⟨r, ?_, readRequest_id hr hid⟩
  rw [MlinkDevice.requestOf, hparse, Option.bind_some, hr]

theorem repliesWith_iff (hL : L.RoundTrips) {server : McpServer W} (hs : server.InStep)
    {message : CStr} {n : ℤ} (h : HasId L message n) (w : W) (k : ℤ) :
    RepliesWith L server message w k ↔ k = max (-2 ^ 31) (min (2 ^ 31 - 1) n) := by
  obtain ⟨r, hr, hid⟩ := h.requestOf
  obtain ⟨payload, reply, hpayload, hreply, -⟩ := (dispatch_answered hL hs r w).payloads
  have hcut : r.id.toInt = max (-2 ^ 31) (min (2 ^ 31 - 1) n) := by
    rw [hid, CJson.toInt_valueint, CJson.trunc_intCast]
  unfold RepliesWith
  rw [parseMessage_eq, hr]
  constructor
  · rintro ⟨payload', reply', hpayload', hparse, hmember⟩
    obtain rfl : payload = payload' := by simpa [hpayload] using hpayload'
    obtain rfl : reply = reply' := by simpa [hreply.parse] using hparse
    have hsame : (r.id.toInt : ℚ) = k := by simpa [hreply.id] using hmember
    rw [← hcut]
    exact_mod_cast hsame.symm
  · rintro rfl
    exact ⟨payload, reply, hpayload, hreply.parse, by rw [hreply.id, hcut]⟩

/-! ## The id that the client sent -/

/-- The reply has the id of the request exactly when that is an `int`. Two requests with
different ids get replies with the same id exactly when both ids lie beyond the same end
of `int`. -/
theorem reply_id_iff (hL : L.RoundTrips) {server : McpServer W} (hs : Reachable server) :
    (∀ message n w, HasId L message n →
      (RepliesWith L server message w n ↔ -2 ^ 31 ≤ n ∧ n ≤ 2 ^ 31 - 1)) ∧
    (∀ message n w message' n' w', HasId L message n → HasId L message' n' → n ≠ n' →
      ((∃ k, RepliesWith L server message w k ∧ RepliesWith L server message' w' k) ↔
        (2 ^ 31 - 1 ≤ n ∧ 2 ^ 31 - 1 ≤ n') ∨ (n ≤ -2 ^ 31 ∧ n' ≤ -2 ^ 31))) := by
  refine ⟨fun message n w h => ?_, fun message n w message' n' w' h h' hne => ?_⟩
  · rw [repliesWith_iff hL hs.inStep h]
    omega
  · simp only [repliesWith_iff hL hs.inStep h, repliesWith_iff hL hs.inStep h', exists_eq_left]
    omega

/-! ## A time stamp as id -/

def stampCall (n : ℤ) : CJson :=
  .object [(lit "jsonrpc", .string (lit "2.0")), (lit "id", .number n),
    (lit "method", .string (lit "ping"))]

theorem stampCall_hasId (n : ℤ) :
    HasId CJsonLib.reference (CJsonLib.reference.print (stampCall n)) n := by
  have hinverts : Json.Inverts (stampCall n) := by
    apply Json.inverts_object
    simp only [List.forall_mem_cons, Json.inverts_string, Json.inverts_int, true_and]
    exact List.forall_mem_nil _
  have hversion : (stampCall n).getObjectItem (lit "jsonrpc") = some (.string (lit "2.0")) := rfl
  have hmethod : (stampCall n).getObjectItem (lit "method") = some (.string (lit "ping")) := rfl
  have hid : (stampCall n).getObjectItem (lit "id") = some (.number n) := rfl
  refine ⟨stampCall n, CJsonLib.reference_parse_print hinverts, ?_, hid⟩
  unfold readRequest
  rw [hversion]
  simp only [hmethod, hid]
  rw [if_pos ⟨rfl, trivial⟩]
  rfl

theorem reply_id_iff_seven :
    RepliesWith CJsonLib.reference pingServer (CJsonLib.reference.print (stampCall 7)) () 7 :=
  ((reply_id_iff CJsonLib.reference_roundTrips pingServer_reachable).1 _ 7 () (stampCall_hasId 7)).mpr
    ⟨by decide, by decide⟩

/-- Two time stamps in milliseconds get the same id, and it is neither of them. -/
theorem time_stamps_confused :
    let text (n : ℤ) := CJsonLib.reference.print (stampCall n)
    HasId CJsonLib.reference (text 1700000000000) 1700000000000 ∧
    HasId CJsonLib.reference (text 1700000000001) 1700000000001 ∧
    RepliesWith CJsonLib.reference pingServer (text 1700000000000) () 2147483647 ∧
    RepliesWith CJsonLib.reference pingServer (text 1700000000001) () 2147483647 ∧
    ¬ RepliesWith CJsonLib.reference pingServer (text 1700000000000) () 1700000000000 := by
  have hreply := fun n => repliesWith_iff CJsonLib.reference_roundTrips pingServer_reachable.inStep
    (stampCall_hasId n) ()
  refine ⟨stampCall_hasId _, stampCall_hasId _, ?_, ?_, ?_⟩
  · exact (hreply _ _).mpr (by decide)
  · exact (hreply _ _).mpr (by decide)
  · exact fun h => absurd ((hreply _ _).mp h) (by decide)

end MlinkDevice
