import MlinkDevice.Pointers.Arguments
import MlinkDevice.Pointers.ReturnValue

/-!
# The call of a tool with its pointers

`mcp_tool_call` and `mcp_server_do_tool_call` over allocated blocks, once the tool is found. The
callback reads the parsed arguments, and the server owns what it returns.
-/

open MlinkDevice.CStr MlinkDevice.Sep MlinkDevice.Sep.Assertion

namespace MlinkDevice.Pointers

/-! ## The functions -/

/-- The functions of the client, which get the parsed arguments. -/
abbrev Callbacks := ℕ → PropertyList → Prog Block ReturnValue

variable (L : CJsonLib) (callbacks : Callbacks)

def mlinkCallbackWrapper (properties : PropertyList) : Option Addr → Prog Block ReturnValue
  | none => return .string none
  | some userCtx => do
    match ← load userCtx with
    | .wrapper none => return .string none
    | .wrapper (some callback) => callbacks callback properties
    | _ => fault

/-- The text of the result is NULL without a callback, or when it cannot be printed. -/
def mcpToolCall (tool : Tool) (arguments : PropertyList) : Prog Block (Option Addr) :=
  match tool.callback with
  | none => return none
  | some callback => do
    let value ← match callback with
      | .wrapper => mlinkCallbackWrapper callbacks arguments tool.userCtx
      | .direct callback => callbacks callback arguments
    let json ← mcpBuildContentFromReturn L value
    let _ ← mcpReturnValueFree value
    return json

/-- The end of a reply: the text that is sent, which is NULL when it cannot be printed. -/
def reply (root : CJson) : Prog Block (Option CStr) := do
  let payload ← malloc (.string (L.print root))
  let sent ← readString payload
  free payload
  return sent

def mcpServerReplyResult (id : Int32) (result : Addr) : Prog Block (Option CStr) := do
  match ← readString (some result) with
  | some text => reply L (resultReply id ((L.parse text).getD (.raw text)))
  | none => fault

def mcpServerReplyError (id : Int32) (message : CStr) : Prog Block (Option CStr) :=
  reply L (errorReply id message)

/-- The call with good arguments and its reply. -/
def callAndReply (tool : Tool) (id : Int32) (parsed : PropertyList) :
    Prog Block (Option CStr) := do
  match ← mcpToolCall L callbacks tool parsed with
  | some result => do
    let sent ← mcpServerReplyResult L id result
    free (some result)
    return sent
  | none => mcpServerReplyError L id (lit "Tool call failed")

/-- `mcp_server_do_tool_call` with the tool that it has found. -/
def callFound (tool : Addr) (id : Int32) (arguments : Option CJson) :
    Prog Block (Option CStr) := do
  let found ← readTool tool
  let (parsed, ok, errorProperty) ← mcpServerParseArguments found arguments
  if ok then do
    let sent ← callAndReply L callbacks found id parsed
    let _ ← mcpPropertyListFree parsed
    return sent
  else do
    let name ← readString errorProperty
    let sent ← mcpServerReplyError L id
      (message128 (lit "Invalid argument: " ++ name.getD (lit "unknown")))
    let _ ← mcpPropertyListFree parsed
    return sent

/-! ## What is sent -/

/-- The payload is that text, or NULL. -/
def Sends (root : CJson) (sent : Option CStr) : Prop := ∀ payload ∈ sent, payload = L.print root

theorem reply_triple (root : CJson) (P : Assertion Block) :
    Triple P (reply L root) fun sent => fact (Sends L root sent) * P := by
  refine Triple.call (malloc_triple (Block.string (L.print root))) P (one_mul P).symm
    fun payload => ?_
  cases payload with
  | none =>
    refine Triple.ret none ?_
    rw [one_mul, fact_of (by simp [Sends]), one_mul]
  | some payload =>
    refine Triple.call (readString_triple (some payload) (some (L.print root))) P rfl fun sent => ?_
    rw [mul_assoc]
    refine Triple.fact_pre fun hsent => ?_
    refine Triple.call (free_stringAt (some payload) (some (L.print root))) P rfl fun _ => ?_
    refine Triple.ret sent ?_
    rw [one_mul, fact_of (by simp [Sends, hsent]), one_mul]

/-! ## What a client promises of its callbacks -/

/-- What each callback may return for which arguments. -/
abbrev Returns := ℕ → List McpProperty → McpReturnValue → Prop

/-- A callback leaves its arguments as they are, and hands over all of what it returns. -/
def KeepsContract (returns : Returns) : Prop :=
  ∀ callback list l, Triple (listAt list l) (callbacks callback list) fun value =>
    listAt list l * ⨆ v, fact (returns callback l.items v) * returnAt value v

/-- What the wrapper gives, which is a NULL string without a callback. -/
def WrapperReturns (returns : Returns) (callback : Option ℕ) (ps : List McpProperty)
    (v : McpReturnValue) : Prop :=
  match callback with
  | none => v = .string none
  | some callback => returns callback ps v

variable {L callbacks}

theorem mlinkCallbackWrapper_triple {returns : Returns} (h : KeepsContract callbacks returns)
    (list : PropertyList) (l : Copying.PropertyList) (wrapper : Addr) (callback : Option ℕ) :
    Triple (pointsTo wrapper (.wrapper callback) * listAt list l)
      (mlinkCallbackWrapper callbacks list (some wrapper)) fun value =>
        (pointsTo wrapper (.wrapper callback) * listAt list l) *
          ⨆ v, fact (WrapperReturns returns callback l.items v) * returnAt value v := by
  refine Triple.load rfl ?_
  cases callback with
  | none =>
    refine Triple.ret (ReturnValue.string none) ?_
    refine le_trans (le_of_eq (mul_one _).symm) (mul_le_mul_right ?_ _)
    refine le_iSup_of_le (McpReturnValue.string none) ?_
    rw [fact_of (show WrapperReturns returns none l.items (.string none) from rfl), one_mul]
    exact le_rfl
  | some callback =>
    refine Triple.last (h callback list l) (pointsTo wrapper (.wrapper (some callback)))
      (mul_comm _ _) fun value => le_of_eq ?_
    rw [mul_right_comm, mul_comm (listAt list l)]
    rfl

theorem mcpToolCall_triple {returns : Returns} (h : KeepsContract callbacks returns)
    {tool : Tool} (list : PropertyList) (l : Copying.PropertyList) (wrapper : Addr)
    (callback : Option ℕ) (hcallback : tool.callback = some .wrapper)
    (hctx : tool.userCtx = some wrapper) :
    Triple (pointsTo wrapper (.wrapper callback) * listAt list l) (mcpToolCall L callbacks tool list)
      fun r => (pointsTo wrapper (.wrapper callback) * listAt list l) * match r with
        | none => 1
        | some a => ⨆ v, ⨆ seen, fact (WrapperReturns returns callback l.items v ∧ ReadAs v seen) *
            pointsTo a (.string (MlinkDevice.mcpBuildContentFromReturn L seen)) := by
  unfold mcpToolCall
  rw [hcallback, hctx]
  refine Triple.bind (mlinkCallbackWrapper_triple h list l wrapper callback) fun value => ?_
  rw [Quantale.mul_iSup_distrib]
  refine Triple.exists_pre fun v => ?_
  rw [mul_left_comm]
  refine Triple.fact_pre fun hreturns => ?_
  refine Triple.call (mcpBuildContentFromReturn_triple L value v) _ (mul_comm _ _) fun json => ?_
  refine Triple.call (mcpReturnValueFree_triple value v) _ (mul_assoc _ _ _) fun freed => ?_
  refine Triple.fact_pre fun _ => ?_
  refine Triple.ret json ?_
  rw [mul_comm]
  refine mul_le_mul_right ?_ _
  cases json with
  | none => exact le_rfl
  | some a =>
    refine iSup_le fun seen => ?_
    refine le_iSup_of_le v (le_iSup_of_le seen ?_)
    by_cases hseen : ReadAs v seen
    · rw [fact_of hseen, fact_of ⟨hreturns, hseen⟩]
    · rw [fact_of_not hseen, Quantale.bot_mul]
      exact bot_le

/-! ## The whole call -/

/-- The arguments that are parsed for a tool, for some outcome of the allocations. -/
def parsedFor (copies : ℕ → Copying.CopyMemory) (memory : ℕ → Bool) (t : ToolValue)
    (arguments : Option CJson) : ParsedArguments :=
  Copying.parseArgumentsLoop memory arguments 0
    (Copying.mcpPropertyListClone copies t.properties.items) true none

variable (L) in
/-- What may be the reply once the callback has got its arguments. -/
inductive CallReplies (returns : Returns) (id : Int32) (callback : Option ℕ)
    (ps : List McpProperty) : CJson → Prop where
  | returned (v seen : McpReturnValue) (hreturns : WrapperReturns returns callback ps v)
      (hseen : ReadAs v seen) :
      CallReplies returns id callback ps (resultReply id
        ((L.parse (MlinkDevice.mcpBuildContentFromReturn L seen)).getD
          (.raw (MlinkDevice.mcpBuildContentFromReturn L seen))))
  | failed : CallReplies returns id callback ps (errorReply id (lit "Tool call failed"))

variable (L) in
/-- What may be the reply to a call of the tool. -/
inductive Replies (returns : Returns) (id : Int32) (t : ToolValue) (arguments : Option CJson) :
    CJson → Prop where
  | refused (copies : ℕ → Copying.CopyMemory) (memory : ℕ → Bool)
      (h : (parsedFor copies memory t arguments).ok = false) :
      Replies returns id t arguments (errorReply id (message128 (lit "Invalid argument: " ++
        (parsedFor copies memory t arguments).errorProperty.getD (lit "unknown"))))
  | called (copies : ℕ → Copying.CopyMemory) (memory : ℕ → Bool) (root : CJson)
      (h : (parsedFor copies memory t arguments).ok = true)
      (hroot : CallReplies L returns id t.callback (parsedFor copies memory t arguments).parsed
        root) : Replies returns id t arguments root

variable (L) in
/-- The payload is the text of such a reply, or NULL. -/
def Replied (returns : Returns) (id : Int32) (t : ToolValue) (arguments : Option CJson)
    (sent : Option CStr) : Prop :=
  ∃ root, Replies L returns id t arguments root ∧ Sends L root sent

theorem mcpServerReplyResult_triple (id : Int32) (result : Addr) (text : CStr) :
    Triple (pointsTo result (.string text)) (mcpServerReplyResult L id result) fun sent =>
      fact (Sends L (resultReply id ((L.parse text).getD (.raw text))) sent) *
        pointsTo result (.string text) := by
  refine Triple.bind (readString_triple (some result) (some text)) fun read => ?_
  refine Triple.fact_pre fun hread => ?_
  subst hread
  exact reply_triple L _ _

theorem callAndReply_triple {returns : Returns} (h : KeepsContract callbacks returns)
    {tool : Tool} (id : Int32) (parsed : PropertyList) (l : Copying.PropertyList) (wrapper : Addr)
    (callback : Option ℕ) (hcallback : tool.callback = some .wrapper)
    (hctx : tool.userCtx = some wrapper) :
    Triple (pointsTo wrapper (.wrapper callback) * listAt parsed l)
      (callAndReply L callbacks tool id parsed) fun sent =>
        fact (∃ root, CallReplies L returns id callback l.items root ∧ Sends L root sent) *
          (pointsTo wrapper (.wrapper callback) * listAt parsed l) := by
  refine Triple.bind (mcpToolCall_triple h parsed l wrapper callback hcallback hctx) fun result => ?_
  generalize pointsTo wrapper (.wrapper callback) * listAt parsed l = T
  cases result with
  | none =>
    rw [mul_one]
    refine (reply_triple L _ T).post fun sent => mul_le_mul_left ?_ T
    exact iSup_mono' fun hsent => ⟨⟨_, .failed, hsent⟩, le_rfl⟩
  | some result =>
    simp only [Quantale.mul_iSup_distrib]
    refine Triple.exists_pre fun v => Triple.exists_pre fun seen => ?_
    rw [mul_left_comm]
    refine Triple.fact_pre fun hvalue => ?_
    refine Triple.call (mcpServerReplyResult_triple id result _) T (mul_comm _ _) fun sent => ?_
    rw [mul_assoc]
    refine Triple.fact_pre fun hsent => ?_
    refine Triple.call (free_triple result _) T rfl fun _ => Triple.ret sent ?_
    rw [fact_of ⟨_, .returned v seen hvalue.1 hvalue.2, hsent⟩]

theorem free_parsed {P : Assertion Block} {parsed : PropertyList} {l : Copying.PropertyList}
    {sent : Option CStr} {Q : Option CStr → Assertion Block} (h : P ≤ Q sent) :
    Triple (listAt parsed l * P) (do let _ ← mcpPropertyListFree parsed; return sent) Q := by
  refine Triple.call (mcpPropertyListFree_triple parsed l) P rfl fun freed => ?_
  exact Triple.fact_pre fun _ => Triple.ret sent h

/-- **Call.** One payload goes out, the tool is as it was, and nothing else is left. -/
theorem callFound_triple {returns : Returns} (h : KeepsContract callbacks returns) (a : Addr)
    (t : ToolValue) (id : Int32) (arguments : Option CJson) :
    Triple (toolHandle a t) (callFound L callbacks a id arguments) fun sent =>
      fact (Replied L returns id t arguments sent) * toolHandle a t := by
  refine Triple.exists_pre fun tool => Triple.exists_pre fun wrapper => ?_
  refine Triple.fact_pre fun hfields => ?_
  have htool : pointsTo a (.tool tool) * (pointsTo wrapper (.wrapper t.callback) *
      partsAt tool (some t.name) (some t.description) t.properties) ≤ toolHandle a t := by
    unfold toolHandle
    refine le_iSup_of_le tool (le_iSup_of_le wrapper ?_)
    rw [fact_of hfields, one_mul]
  refine Triple.call (readTool_triple a tool) _ rfl fun found => ?_
  rw [mul_assoc]
  refine Triple.fact_pre fun hfound => ?_
  subst hfound
  refine Triple.call (mcpServerParseArguments_triple found t.properties arguments)
    (pointsTo a (.tool found) * (pointsTo wrapper (.wrapper t.callback) *
      (stringAt found.name (some t.name) * stringAt found.description (some t.description))))
    (by rw [partsAt]; ac_rfl) fun parsed => ?_
  have hrest : listAt found.properties t.properties * argumentsAt arguments t.properties parsed *
      (pointsTo a (.tool found) * (pointsTo wrapper (.wrapper t.callback) *
        (stringAt found.name (some t.name) * stringAt found.description (some t.description)))) =
      argumentsAt arguments t.properties parsed * (pointsTo a (.tool found) *
        (pointsTo wrapper (.wrapper t.callback) *
          partsAt found (some t.name) (some t.description) t.properties)) := by
    rw [partsAt]
    ac_rfl
  rw [hrest]
  obtain ⟨parsed, ok, errorProperty⟩ := parsed
  rw [argumentsAt, Quantale.iSup_mul_distrib]
  refine Triple.exists_pre fun copies => ?_
  rw [Quantale.iSup_mul_distrib]
  refine Triple.exists_pre fun memory => ?_
  rw [parsedAt, Quantale.iSup_mul_distrib]
  refine Triple.exists_pre fun items => ?_
  rw [mul_assoc]
  refine Triple.fact_pre fun hparsed => ?_
  obtain ⟨hok, hname⟩ := hparsed
  rw [List.nil_append] at hname ⊢
  change ok = (parsedFor copies memory t arguments).ok at hok
  change NameOf errorProperty items (parsedFor copies memory t arguments).parsed
    (parsedFor copies memory t arguments).errorProperty at hname
  change Triple (arrayAt parsed items * itemsAt items (parsedFor copies memory t arguments).parsed *
    _) _ _
  let l : Copying.PropertyList := ⟨(parsedFor copies memory t arguments).parsed, parsed.capacity⟩
  have hlist : arrayAt parsed items * itemsAt items l.items ≤ listAt parsed l :=
    listAt_of rfl items
  cases ok with
  | false =>
    generalize pointsTo a (.tool found) * (pointsTo wrapper (.wrapper t.callback) *
      partsAt found (some t.name) (some t.description) t.properties) = T at htool
    obtain ⟨K, howned⟩ := hname.owned
    refine Triple.call (readString_triple _ _) (arrayAt parsed items * K * T)
      (by rw [howned]; ac_rfl) fun name => ?_
    rw [mul_assoc]
    refine Triple.fact_pre fun hread => ?_
    subst hread
    refine Triple.bind (reply_triple L _ _) fun sent => Triple.fact_pre fun hsent => ?_
    refine (free_parsed (l := l) (P := T) ?_).pre
      (le_trans (le_of_eq ?_) (mul_le_mul_left hlist T))
    · rw [fact_of ⟨_, .refused copies memory hok.symm, hsent⟩, one_mul]
      exact htool
    · rw [howned]
      ac_rfl
  | true =>
    refine Triple.pre ?_ (mul_le_mul_left hlist _)
    refine Triple.call (callAndReply_triple h id parsed l wrapper t.callback hfields.1 hfields.2.1)
      (pointsTo a (.tool found) * partsAt found (some t.name) (some t.description) t.properties)
      (by ac_rfl) fun sent => ?_
    rw [mul_assoc]
    refine Triple.fact_pre fun hroot => ?_
    obtain ⟨root, hroot, hsent⟩ := hroot
    refine (free_parsed (l := l) (P := pointsTo a (.tool found) * (pointsTo wrapper
      (.wrapper t.callback) * partsAt found (some t.name) (some t.description) t.properties))
      ?_).pre (le_of_eq (by ac_rfl))
    rw [fact_of ⟨root, .called copies memory root hok.symm hroot, hsent⟩, one_mul]
    exact htool

end MlinkDevice.Pointers
