import Mathlib.Data.List.Find
import Mathlib.Data.Rat.Floor
import MlinkDevice.CStr

/-!
# JSON values

A value as `cJSON` holds it: a tree whose strings and member names are C strings
and whose numbers are exact. Lookups and the conversion to `int` follow the
documentation of the library. `raw` is a piece of text that is printed as it is.
-/

namespace MlinkDevice

inductive CJson where
  | null
  | bool (b : Bool)
  | number (q : ℚ)
  | string (s : CStr)
  | array (items : List CJson)
  | object (members : List (CStr × CJson))
  | raw (s : CStr)

namespace CJson

/-! ## Members -/

/-- `cJSON_GetObjectItem`: the first member with that name, up to letter case. -/
def getObjectItem (v : CJson) (name : CStr) : Option CJson :=
  match v with
  | .object ms => (ms.find? fun m => name.sameLetters m.1).map (·.2)
  | _ => none

/-- The first member with exactly that name. -/
def member (v : CJson) (name : CStr) : Option CJson :=
  match v with
  | .object ms => (ms.find? fun m => name == m.1).map (·.2)
  | _ => none

def keys : CJson → List CStr
  | .object ms => ms.map (·.1)
  | _ => []

def isObject : CJson → Bool
  | .object _ => true
  | _ => false

theorem getObjectItem_object {v w : CJson} {name : CStr} (h : v.getObjectItem name = some w) :
    v.isObject = true := by
  cases v <;> simp_all [getObjectItem, isObject]

theorem getObjectItem_eq_member {v : CJson} {name : CStr}
    (h : ∀ key ∈ v.keys, key.sameLetters name = true → key = name) :
    v.getObjectItem name = v.member name := by
  cases v with
  | object ms =>
    have hagree : ∀ m ∈ ms, name.sameLetters m.1 = (name == m.1) := by
      intro m hm
      rw [Bool.eq_iff_iff, beq_iff_eq]
      constructor
      · intro hsame
        rw [CStr.sameLetters_comm] at hsame
        exact (h m.1 (List.mem_map_of_mem hm) hsame).symm
      · rintro rfl
        exact CStr.sameLetters_refl _
    rw [getObjectItem, member, List.find?_congr hagree]
  | _ => rfl

/-! ## Numbers -/

def trunc (q : ℚ) : ℤ := if 0 ≤ q then ⌊q⌋ else ⌈q⌉

/-- `valueint`: the number truncated toward zero and saturated to `int`. -/
def valueint (q : ℚ) : Int32 := Int32.ofInt (max (-2 ^ 31) (min (2 ^ 31 - 1) (trunc q)))

theorem toInt_valueint (q : ℚ) :
    (valueint q).toInt = max (-2 ^ 31) (min (2 ^ 31 - 1) (trunc q)) := by
  apply Int32.toInt_ofInt_of_le <;> omega

@[simp]
theorem trunc_intCast (i : ℤ) : trunc i = i := by
  unfold trunc
  split <;> simp

@[simp]
theorem valueint_toInt (i : Int32) : valueint (i.toInt : ℚ) = i := by
  rw [valueint, trunc_intCast]
  have h := i.le_toInt
  have h' := i.toInt_lt
  rw [show max (-2 ^ 31) (min (2 ^ 31 - 1) i.toInt) = i.toInt by omega, Int32.ofInt_toInt]

def IsInt (q : ℚ) : Prop := ∃ i : Int32, q = i.toInt

theorem isInt_iff (q : ℚ) : IsInt q ↔ ((valueint q).toInt : ℚ) = q := by
  constructor
  · rintro ⟨i, rfl⟩
    rw [valueint_toInt]
  · intro h
    exact ⟨valueint q, h.symm⟩

theorem lt_of_trunc_lt {q : ℚ} {m : ℤ} (h : trunc q < m) : q < m := by
  unfold trunc at h
  split at h
  · exact Int.floor_lt.mp h
  · exact lt_of_le_of_lt (Int.le_ceil q) (by exact_mod_cast h)

theorem lt_of_lt_trunc {q : ℚ} {m : ℤ} (h : m < trunc q) : (m : ℚ) < q := by
  unfold trunc at h
  split at h
  · exact lt_of_lt_of_le (by exact_mod_cast h) (Int.floor_le q)
  · exact Int.lt_ceil.mp h

theorem lt_of_valueint_lt {q : ℚ} {m : Int32} (h : valueint q < m) : q < (m.toInt : ℚ) := by
  rw [Int32.lt_iff_toInt_lt, toInt_valueint] at h
  have := m.toInt_lt
  exact lt_of_trunc_lt (by omega)

theorem lt_of_lt_valueint {q : ℚ} {m : Int32} (h : m < valueint q) : (m.toInt : ℚ) < q := by
  rw [Int32.lt_iff_toInt_lt, toInt_valueint] at h
  have := m.le_toInt
  exact lt_of_lt_trunc (by omega)

/-! ## Induction -/

@[elab_as_elim]
theorem induct {P : CJson → Prop} (null : P null) (bool : ∀ b, P (bool b))
    (number : ∀ q, P (number q)) (string : ∀ s, P (string s)) (raw : ∀ s, P (raw s))
    (array : ∀ vs, (∀ v ∈ vs, P v) → P (array vs))
    (object : ∀ ms : List (CStr × CJson), (∀ m ∈ ms, P m.2) → P (object ms)) (v : CJson) : P v := by
  match v with
  | .null => exact null
  | .bool b => exact bool b
  | .number q => exact number q
  | .string s => exact string s
  | .raw s => exact raw s
  | .array vs => exact array vs fun v _ => induct null bool number string raw array object v
  | .object ms => exact object ms fun m _ => induct null bool number string raw array object m.2
termination_by sizeOf v
decreasing_by
  · simp only [CJson.array.sizeOf_spec]
    have := List.sizeOf_lt_of_mem ‹v ∈ vs›
    omega
  · simp only [CJson.object.sizeOf_spec]
    have := List.sizeOf_lt_of_mem ‹m ∈ ms›
    cases m
    simp only [Prod.mk.sizeOf_spec] at this ⊢
    omega

/-! ## Plain values -/

mutual
/-- Built from objects, arrays, `int` numbers, booleans and strings. -/
def Plain : CJson → Prop
  | .number q => IsInt q
  | .array vs => PlainItems vs
  | .object ms => PlainMembers ms
  | .bool _ | .string _ => True
  | .null | .raw _ => False

def PlainItems : List CJson → Prop
  | [] => True
  | v :: vs => v.Plain ∧ PlainItems vs

def PlainMembers : List (CStr × CJson) → Prop
  | [] => True
  | (_, v) :: ms => v.Plain ∧ PlainMembers ms
end

theorem plainItems_iff (vs : List CJson) : PlainItems vs ↔ ∀ v ∈ vs, v.Plain := by
  induction vs with
  | nil => simp [PlainItems]
  | cons v vs ih => simp [PlainItems, ih]

theorem plainMembers_iff (ms : List (CStr × CJson)) : PlainMembers ms ↔ ∀ m ∈ ms, m.2.Plain := by
  induction ms with
  | nil => simp [PlainMembers]
  | cons m ms ih => simp [PlainMembers, ih]

@[simp]
theorem plain_bool (b : Bool) : (bool b).Plain := by simp [Plain]

@[simp]
theorem plain_string (s : CStr) : (string s).Plain := by simp [Plain]

@[simp]
theorem plain_toInt (i : Int32) : (number i.toInt).Plain := ⟨i, rfl⟩

@[simp]
theorem plain_array (vs : List CJson) : (array vs).Plain ↔ ∀ v ∈ vs, v.Plain := by
  rw [Plain, plainItems_iff]

@[simp]
theorem plain_object (ms : List (CStr × CJson)) : (object ms).Plain ↔ ∀ m ∈ ms, m.2.Plain := by
  rw [Plain, plainMembers_iff]

end CJson

end MlinkDevice
