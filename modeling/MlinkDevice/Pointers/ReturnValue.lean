import MlinkDevice.Pointers.Tool

/-!
# What a callback returns

`mcp_return_value.c` over allocated blocks. The caller of a callback owns what it returns, reads
it for the reply and frees it.
-/

open MlinkDevice.CStr MlinkDevice.Sep MlinkDevice.Sep.Assertion

namespace MlinkDevice.Pointers

variable {α : Type}

/-- `struct mcp_return_value`. -/
inductive ReturnValue where
  | bool (boolValue : Bool)
  | int (intValue : Int32)
  | string (stringValue : Option Addr)
  | json (jsonValue : Option Addr)
  | image (imageValue : Option Addr)

/-! ## The functions -/

def readImage (a : Addr) : Prog Block (Option Addr × Option Addr) := do
  match ← load a with
  | .image mimeType encodedData => return (mimeType, encodedData)
  | _ => fault

def readJson (a : Addr) : Prog Block CJson := do
  match ← load a with
  | .json json => return json
  | _ => fault

def mcpReturnString (value : Option CStr) : Prog Block ReturnValue := do
  return .string (← utilsStrdup (some (value.getD ∅)))

def mcpImageContentFree : Option Addr → Prog Block Unit
  | none => return
  | some a => do
    let content ← readImage a
    free content.1
    free content.2
    free (some a)

/-- `mcp_return_value_free`: what it leaves of the value. -/
def mcpReturnValueFree : ReturnValue → Prog Block ReturnValue
  | .string p => do
    free p
    return .string none
  | .json p => do
    free p
    return .string none
  | .image p => do
    mcpImageContentFree p
    return .string none
  | _ => return .string none

/-- What the entry of the content is made of. The text of a JSON value is printed for it, and a
print that fails is like that of NULL. -/
def readReturn (L : CJsonLib) : ReturnValue → Prog Block McpReturnValue
  | .bool b => return .bool b
  | .int i => return .int i
  | .string p => do return .string (← readString p)
  | .json none => return .json none
  | .json (some a) => do
    let json ← readJson a
    let text ← malloc (.string (L.print json))
    free text
    return .json (if text.isSome then some json else none)
  | .image none => return .image none
  | .image (some a) => do
    let content ← readImage a
    return .image (some (← readString content.2))

/-- The text of the content, which is NULL when it cannot be printed. -/
def mcpBuildContentFromReturn (L : CJsonLib) (value : ReturnValue) : Prog Block (Option Addr) := do
  malloc (.string (MlinkDevice.mcpBuildContentFromReturn L (← readReturn L value)))

/-! ## What a return value owns -/

/-- The image content, whose MIME type nothing reads. -/
def imageAt (a : Addr) (data : Option CStr) : Assertion Block :=
  ⨆ mimePointer, ⨆ dataPointer, ⨆ mimeType,
    pointsTo a (.image mimePointer dataPointer) *
      (stringAt mimePointer mimeType * stringAt dataPointer data)

def returnAt : ReturnValue → McpReturnValue → Assertion Block
  | .bool b, .bool c => fact (b = c)
  | .int i, .int j => fact (i = j)
  | .string p, .string s => stringAt p s
  | .json p, .json j => optionally p (j.map .json)
  | .image none, .image none => 1
  | .image (some a), .image (some data) => imageAt a data
  | _, _ => ⊥

theorem mcpReturnString_triple (value : Option CStr) :
    Triple 1 (mcpReturnString value) fun r => ⨆ s, returnAt r (.string s) := by
  refine Triple.bind (utilsStrdup_triple (some (value.getD ∅))) fun p =>
    Triple.exists_pre fun memory => ?_
  refine Triple.ret (ReturnValue.string p) ?_
  exact le_iSup (fun s => returnAt (ReturnValue.string p) (McpReturnValue.string s))
    (Copying.utilsStrdup memory (some (value.getD ∅)))

theorem readImage_triple (a : Addr) (mimeType encodedData : Option Addr) :
    Triple (pointsTo a (.image mimeType encodedData)) (readImage a) fun r =>
      fact (r = (mimeType, encodedData)) * pointsTo a (.image mimeType encodedData) := by
  refine Triple.load (mul_one _).symm (Triple.ret _ ?_)
  rw [fact_of rfl, one_mul, mul_one]

theorem readJson_triple (a : Addr) (json : CJson) :
    Triple (pointsTo a (.json json)) (readJson a) fun r =>
      fact (r = json) * pointsTo a (.json json) := by
  refine Triple.load (mul_one _).symm (Triple.ret _ ?_)
  rw [fact_of rfl, one_mul, mul_one]

theorem mcpImageContentFree_triple (a : Addr) (data : Option CStr) :
    Triple (imageAt a data) (mcpImageContentFree (some a)) fun _ => 1 := by
  refine Triple.exists_pre fun mimePointer => Triple.exists_pre fun dataPointer =>
    Triple.exists_pre fun mimeType => ?_
  refine Triple.call (readImage_triple a mimePointer dataPointer) _ rfl fun r => ?_
  rw [mul_assoc]
  refine Triple.fact_pre fun hr => ?_
  subst hr
  refine Triple.call (free_stringAt mimePointer mimeType) (pointsTo a (.image mimePointer
    dataPointer) * stringAt dataPointer data) (by ac_rfl) fun _ => ?_
  rw [one_mul]
  refine Triple.call (free_stringAt dataPointer data) _ (mul_comm _ _) fun _ => ?_
  rw [one_mul]
  exact free_triple a _

theorem mcpReturnValueFree_triple (value : ReturnValue) (v : McpReturnValue) :
    Triple (returnAt value v) (mcpReturnValueFree value) fun r => fact (r = .string none) := by
  have hnothing : (1 : Assertion Block) ≤ fact (ReturnValue.string none = .string none) := by
    rw [fact_of rfl]
  cases value with
  | bool b =>
    cases v with
    | bool c => exact Triple.ret _ ((fact_le _).trans hnothing)
    | _ => exact triple_bot
  | int i =>
    cases v with
    | int j => exact Triple.ret _ ((fact_le _).trans hnothing)
    | _ => exact triple_bot
  | string p =>
    cases v with
    | string s => exact Triple.bind (free_stringAt p s) fun _ => Triple.ret _ hnothing
    | _ => exact triple_bot
  | json p =>
    cases v with
    | json j => exact Triple.bind (free_optionally p _) fun _ => Triple.ret _ hnothing
    | _ => exact triple_bot
  | image p =>
    cases p with
    | none =>
      cases v with
      | image data =>
        cases data with
        | none => exact Triple.ret _ hnothing
        | some data => exact triple_bot
      | _ => exact triple_bot
    | some a =>
      cases v with
      | image data =>
        cases data with
        | none => exact triple_bot
        | some data =>
          exact Triple.bind (mcpImageContentFree_triple a data) fun _ => Triple.ret _ hnothing
      | _ => exact triple_bot

/-- What is read of a return value is the value, but for a JSON value that cannot be printed. -/
def ReadAs (v seen : McpReturnValue) : Prop :=
  seen = v ∨ (∃ json, v = .json json) ∧ seen = .json none

theorem readReturn_triple (L : CJsonLib) (value : ReturnValue) (v : McpReturnValue) :
    Triple (returnAt value v) (readReturn L value) fun r =>
      fact (ReadAs v r) * returnAt value v := by
  have hsame {R : Assertion Block} : R ≤ fact (ReadAs v v) * R := by
    rw [fact_of (.inl rfl), one_mul]
  cases value with
  | bool b =>
    cases v with
    | bool c =>
      refine Triple.of_fact fun hb => Triple.ret _ ?_
      subst hb
      rw [returnAt, fact_of (.inl rfl), fact_of rfl, one_mul]
    | _ => exact triple_bot
  | int i =>
    cases v with
    | int j =>
      refine Triple.of_fact fun hi => Triple.ret _ ?_
      subst hi
      rw [returnAt, fact_of (.inl rfl), fact_of rfl, one_mul]
    | _ => exact triple_bot
  | string p =>
    cases v with
    | string s =>
      refine Triple.bind (readString_triple p s) fun r => Triple.fact_pre fun hr => ?_
      subst hr
      exact Triple.ret _ hsame
    | _ => exact triple_bot
  | json p =>
    cases v with
    | json j =>
      cases p with
      | none =>
        cases j with
        | none => exact Triple.ret _ hsame
        | some j => exact triple_bot
      | some a =>
        cases j with
        | none => exact triple_bot
        | some j =>
          refine Triple.bind (readJson_triple a j) fun r => Triple.fact_pre fun hr => ?_
          subst hr
          refine Triple.call (malloc_triple (Block.string (L.print r))) _ (one_mul _).symm
            fun text => ?_
          cases text with
          | none =>
            rw [one_mul]
            refine Triple.bind (free_none_triple _) fun _ => Triple.ret _ ?_
            rw [Option.isSome_none, if_neg Bool.false_ne_true, fact_of (.inr ⟨⟨_, rfl⟩, rfl⟩), one_mul]
            exact le_rfl
          | some text =>
            refine Triple.call (free_triple text _) _ rfl fun _ => ?_
            rw [one_mul]
            exact Triple.ret _ hsame
    | _ => exact triple_bot
  | image p =>
    cases v with
    | image data =>
      cases p with
      | none =>
        cases data with
        | none => exact Triple.ret _ hsame
        | some data => exact triple_bot
      | some a =>
        cases data with
        | none => exact triple_bot
        | some data =>
          refine Triple.exists_pre fun mimePointer => Triple.exists_pre fun dataPointer =>
            Triple.exists_pre fun mimeType => ?_
          refine Triple.call (readImage_triple a mimePointer dataPointer) _ rfl fun r => ?_
          rw [mul_assoc]
          refine Triple.fact_pre fun hr => ?_
          subst hr
          refine Triple.call (readString_triple dataPointer data) (pointsTo a (.image mimePointer
            dataPointer) * stringAt mimePointer mimeType) (by ac_rfl) fun read => ?_
          rw [mul_assoc]
          refine Triple.fact_pre fun hread => ?_
          subst hread
          refine Triple.ret _ (le_trans ?_ hsame)
          refine le_iSup_of_le mimePointer (le_iSup_of_le dataPointer (le_iSup_of_le mimeType ?_))
          exact le_of_eq (by ac_rfl)
    | _ => exact triple_bot.pre (by cases p <;> exact le_rfl)

theorem mcpBuildContentFromReturn_triple (L : CJsonLib) (value : ReturnValue)
    (v : McpReturnValue) :
    Triple (returnAt value v) (mcpBuildContentFromReturn L value) fun r =>
      returnAt value v * match r with
        | none => 1
        | some a => ⨆ seen, fact (ReadAs v seen) *
            pointsTo a (.string (MlinkDevice.mcpBuildContentFromReturn L seen)) := by
  refine Triple.bind (readReturn_triple L value v) fun seen => Triple.fact_pre fun hseen => ?_
  refine Triple.last (malloc_triple (Block.string _)) (returnAt value v) (one_mul _).symm
    fun r => ?_
  rw [mul_comm]
  refine mul_le_mul_right ?_ _
  cases r with
  | none => exact le_rfl
  | some a =>
    refine le_iSup_of_le seen ?_
    rw [fact_of hseen, one_mul]

end MlinkDevice.Pointers
