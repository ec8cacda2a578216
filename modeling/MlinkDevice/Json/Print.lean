import MlinkDevice.Json.Value

/-!
# Compact printing

The text of a value without any blank, as `cJSON_PrintUnformatted` writes it for
`int` numbers.
-/

namespace MlinkDevice.Json

open CStr

/-! ## Strings -/

def hexDigit (n : Nat) : UInt8 := UInt8.ofNat (if n < 10 then 48 + n else 87 + n)

def shortEscape (b : UInt8) : Option UInt8 :=
  if b = 34 then some 34 else if b = 92 then some 92 else if b = 8 then some 98
  else if b = 12 then some 102 else if b = 10 then some 110 else if b = 13 then some 114
  else if b = 9 then some 116 else none

def escapeByte (b : UInt8) : List UInt8 :=
  match shortEscape b with
  | some e => [92, e]
  | none => if b < 32 then [92, 117, 48, 48, hexDigit (b.toNat / 16), hexDigit (b.toNat % 16)] else [b]

def escape (bs : List UInt8) : List UInt8 := bs.flatMap escapeByte

theorem shortEscape_ne_zero {b e : UInt8} (h : shortEscape b = some e) : e ≠ 0 := by
  unfold shortEscape at h
  rintro rfl
  split_ifs at h <;> simp at h

theorem hexDigit_ne_zero {n : Nat} (h : n < 16) : hexDigit n ≠ 0 := by
  revert n
  decide

theorem escapeByte_nulFree {b : UInt8} (hb : b ≠ 0) : 0 ∉ escapeByte b := by
  unfold escapeByte
  split
  · rename_i e he
    simp [(shortEscape_ne_zero he).symm]
  · split
    · rename_i h
      have h32 : b.toNat < 32 := by simpa [UInt8.lt_iff_toNat_lt] using h
      have h1 := hexDigit_ne_zero (show b.toNat / 16 < 16 by omega)
      have h2 := hexDigit_ne_zero (show b.toNat % 16 < 16 by omega)
      simp [h1.symm, h2.symm]
    · simpa using hb.symm

theorem escape_nulFree (s : CStr) : 0 ∉ escape s.bytes := by
  simp only [escape, List.mem_flatMap, not_exists, not_and]
  intro b hb
  exact escapeByte_nulFree fun h => s.nulFree (h ▸ hb)

def printString (s : CStr) : CStr where
  bytes := 34 :: (escape s.bytes ++ [34])
  nulFree := by simp [escape_nulFree]

theorem bytes_printString (s : CStr) : (printString s).bytes = 34 :: (escape s.bytes ++ [34]) := rfl

def IsPlainByte (b : UInt8) : Prop := 32 ≤ b ∧ b ≠ 34 ∧ b ≠ 92

instance (b : UInt8) : Decidable (IsPlainByte b) := inferInstanceAs (Decidable (_ ∧ _))

def IsPlain (s : CStr) : Prop := ∀ b ∈ s.bytes, IsPlainByte b

instance (s : CStr) : Decidable (IsPlain s) := List.decidableBAll IsPlainByte s.bytes

theorem escapeByte_plain {b : UInt8} (h : IsPlainByte b) : escapeByte b = [b] := by
  obtain ⟨h32, hquote, hslash⟩ := h
  have h32 : 32 ≤ b.toNat := by simpa [UInt8.le_iff_toNat_le] using h32
  have hshort : shortEscape b = none := by
    unfold shortEscape
    rw [if_neg hquote, if_neg hslash, if_neg, if_neg, if_neg, if_neg, if_neg]
    all_goals
      rintro rfl
      revert h32
      decide
  unfold escapeByte
  rw [hshort]
  simp only [UInt8.lt_iff_toNat_lt]
  rw [if_neg]
  simpa using h32

theorem escape_plain {bs : List UInt8} (h : ∀ b ∈ bs, IsPlainByte b) : escape bs = bs := by
  induction bs with
  | nil => rfl
  | cons b bs ih =>
    have hbs := ih fun c hc => h c (List.mem_cons_of_mem _ hc)
    unfold escape
    rw [List.flatMap_cons, escapeByte_plain (h b List.mem_cons_self)]
    exact congrArg (b :: ·) hbs

theorem length_escapeByte_le (b : UInt8) : (escapeByte b).length ≤ 6 := by
  unfold escapeByte
  split
  · exact Nat.le_add_left 2 4
  · split
    · exact le_rfl
    · exact Nat.le_add_left 1 5

theorem length_escape_le (bs : List UInt8) : (escape bs).length ≤ 6 * bs.length := by
  induction bs with
  | nil => rfl
  | cons b bs ih =>
    have hb := length_escapeByte_le b
    unfold escape at ih ⊢
    rw [List.flatMap_cons, List.length_append, List.length_cons]
    omega

theorem printString_plain {s : CStr} (h : IsPlain s) :
    printString s = lit "\"" ++ s ++ lit "\"" := by
  ext1
  simp only [bytes_printString, escape_plain h, bytes_append]
  rfl

/-! ## Numbers -/

def decimal (n : Nat) : List UInt8 :=
  (if n < 10 then [] else decimal (n / 10)) ++ [UInt8.ofNat (48 + n % 10)]
termination_by n

theorem digit_toNat {d : Nat} (h : d < 10) : (UInt8.ofNat (48 + d)).toNat = 48 + d := by
  simp only [UInt8.toNat_ofNat']
  omega

theorem decimal_digits (n : Nat) : ∀ b ∈ decimal n, 48 ≤ b.toNat ∧ b.toNat ≤ 57 := by
  induction n using Nat.strong_induction_on with
  | _ n ih =>
    have hlast := digit_toNat (Nat.mod_lt n (show 10 > 0 by omega))
    rw [decimal]
    intro b hb
    simp only [List.mem_append, List.mem_singleton] at hb
    rcases hb with hb | rfl
    · split at hb
      · simp at hb
      · exact ih (n / 10) (by omega) b hb
    · omega

theorem decimal_ne_nil (n : Nat) : decimal n ≠ [] := by
  rw [decimal]
  simp

theorem decimal_nulFree (n : Nat) : 0 ∉ decimal n := by
  intro h
  have := decimal_digits n 0 h
  simp at this

def printInt (i : ℤ) : CStr where
  bytes := (if i < 0 then [45] else []) ++ decimal i.natAbs
  nulFree := by split <;> simp [decimal_nulFree]

/-- Numbers outside `int` have no text here: nothing that is printed has one. -/
def printNumber (q : ℚ) : CStr :=
  if q = CJson.trunc q then printInt (CJson.trunc q) else lit "null"

/-! ## Values -/

mutual
def print : CJson → CStr
  | .null => lit "null"
  | .bool b => if b then lit "true" else lit "false"
  | .number q => printNumber q
  | .string s => printString s
  | .array vs => lit "[" ++ join (lit ",") (printItems vs) ++ lit "]"
  | .object ms => lit "\x7b" ++ join (lit ",") (printMembers ms) ++ lit "\x7d"
  | .raw s => s

def printItems : List CJson → List CStr
  | [] => []
  | v :: vs => print v :: printItems vs

def printMembers : List (CStr × CJson) → List CStr
  | [] => []
  | (k, v) :: ms => (printString k ++ lit ":" ++ print v) :: printMembers ms
end

theorem printItems_eq (vs : List CJson) : printItems vs = vs.map print := by
  induction vs with
  | nil => rfl
  | cons v vs ih => rw [printItems, ih, List.map_cons]

theorem printMembers_eq (ms : List (CStr × CJson)) :
    printMembers ms = ms.map fun m => printString m.1 ++ lit ":" ++ print m.2 := by
  induction ms with
  | nil => rfl
  | cons m ms ih => rw [printMembers, ih, List.map_cons]

end MlinkDevice.Json
