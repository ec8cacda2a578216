import Mathlib.Algebra.GroupWithZero.Nat
import Mathlib.Data.List.TakeWhile

/-!
# C strings

A C string is the bytes before its NUL, so no byte of it is zero. Everything a
`char *` does in the code is one of the operations below.
-/

namespace MlinkDevice

/-- A C string. The NUL that ends it is not stored. -/
@[ext]
structure CStr where
  bytes : List UInt8
  nulFree : 0 ∉ bytes
deriving DecidableEq

namespace CStr

/-- What `char *` makes of a piece of memory: the bytes before the first NUL. -/
def ofMem (mem : List UInt8) : CStr where
  bytes := mem.takeWhile (· != 0)
  nulFree h := by simpa using List.mem_takeWhile_imp h

def lit (s : String) : CStr := ofMem (s.toList.map fun c => UInt8.ofNat c.toNat)

def strlen (s : CStr) : Nat := s.bytes.length

def first (s : CStr) : UInt8 := s.bytes.headD 0

/-- The string that `strncpy` of at most `n` bytes leaves in a zeroed buffer. -/
def strncpy (s : CStr) (n : Nat) : CStr where
  bytes := s.bytes.take n
  nulFree h := s.nulFree (List.mem_of_mem_take h)

instance : EmptyCollection CStr := ⟨⟨[], by simp⟩⟩

instance : Append CStr :=
  ⟨fun s t => ⟨s.bytes ++ t.bytes, by simp [s.nulFree, t.nulFree]⟩⟩

def join (sep : CStr) : List CStr → CStr
  | [] => ∅
  | s :: ss => s ++ ss.foldr (fun t acc => sep ++ t ++ acc) ∅

def letters (n : Nat) : CStr where
  bytes := List.replicate n 97
  nulFree := by simp

def tolower (b : UInt8) : UInt8 := if 65 ≤ b ∧ b ≤ 90 then b + 32 else b

def sameLetters (s t : CStr) : Bool := s.bytes.map tolower == t.bytes.map tolower

/-! ## Bytes -/

theorem ne_zero (s : CStr) {b : UInt8} (hb : b ∈ s.bytes) : b ≠ 0 := fun h => s.nulFree (h ▸ hb)

theorem ofMem_bytes (s : CStr) : ofMem s.bytes = s := by
  ext1
  simp only [ofMem, List.takeWhile_eq_self_iff]
  intro b hb
  simpa using s.ne_zero hb

@[simp]
theorem bytes_empty : (∅ : CStr).bytes = [] := rfl

@[simp]
theorem bytes_append (s t : CStr) : (s ++ t).bytes = s.bytes ++ t.bytes := rfl

@[simp]
theorem bytes_strncpy (s : CStr) (n : Nat) : (s.strncpy n).bytes = s.bytes.take n := rfl

theorem bytes_injective {s t : CStr} : s.bytes = t.bytes ↔ s = t := ⟨CStr.ext, congrArg _⟩

theorem append_assoc (r s t : CStr) : r ++ s ++ t = r ++ (s ++ t) := by ext1; simp

@[simp]
theorem append_empty (s : CStr) : s ++ ∅ = s := by ext1; simp

theorem ofMem_append (s : CStr) (mem : List UInt8) : ofMem (s.bytes ++ mem) = s ++ ofMem mem := by
  ext1
  refine List.takeWhile_append_of_pos fun b hb => ?_
  simpa using s.ne_zero hb

theorem ofMem_terminated (s : CStr) : ofMem (s.bytes ++ [0]) = s := by
  have hend : ofMem [0] = ∅ := by ext1; simp [ofMem]
  rw [ofMem_append, hend, append_empty]

/-- What comes after a NUL is not read. -/
theorem ofMem_append_of_nul {mem : List UInt8} (h : 0 ∈ mem) (rest : List UInt8) :
    ofMem (mem ++ rest) = ofMem mem := by
  induction mem with
  | nil => exact absurd h List.not_mem_nil
  | cons b mem ih =>
    ext1
    by_cases hb : b = 0
    · simp [ofMem, hb]
    · have hmem := (List.mem_cons.mp h).resolve_left (Ne.symm hb)
      have hrest := congrArg CStr.bytes (ih hmem)
      simpa [ofMem, hb] using hrest

/-! ## Lengths -/

@[simp]
theorem strlen_empty : (∅ : CStr).strlen = 0 := rfl

@[simp]
theorem strlen_append (s t : CStr) : (s ++ t).strlen = s.strlen + t.strlen := by simp [strlen]

@[simp]
theorem strlen_strncpy (s : CStr) (n : Nat) : (s.strncpy n).strlen = min n s.strlen := by
  simp [strlen]

@[simp]
theorem strlen_letters (n : Nat) : (letters n).strlen = n := by simp [strlen, letters]

theorem strlen_eq_zero {s : CStr} : s.strlen = 0 ↔ s = ∅ := by
  unfold strlen
  rw [List.length_eq_zero_iff, ← bytes_empty, bytes_injective]

theorem first_eq_zero {s : CStr} : s.first = 0 ↔ s = ∅ := by
  rw [← bytes_injective, bytes_empty, first]
  cases h : s.bytes with
  | nil => simp
  | cons b bs =>
    have hb : b ≠ 0 := fun hb => s.nulFree (by simp [h, hb])
    simp [hb]

theorem strncpy_of_le {s : CStr} {n : Nat} (h : s.strlen ≤ n) : s.strncpy n = s := by
  ext1
  exact List.take_of_length_le h

theorem strncpy_eq_self {s : CStr} {n : Nat} : s.strncpy n = s ↔ s.strlen ≤ n := by
  constructor
  · intro h
    have := congrArg strlen h
    rw [strlen_strncpy] at this
    omega
  · exact strncpy_of_le

theorem join_cons (sep s : CStr) (ss : List CStr) :
    join sep (s :: ss) = s ++ ss.foldr (fun t acc => sep ++ t ++ acc) ∅ := rfl

theorem strlen_join {sep : CStr} (h : sep.strlen = 1) (ss : List CStr) :
    (join sep ss).strlen = (ss.map strlen).sum + (ss.length - 1) := by
  cases ss with
  | nil => rfl
  | cons s ss =>
    have hrest : (ss.foldr (fun t acc => sep ++ t ++ acc) ∅ : CStr).strlen =
        (ss.map strlen).sum + ss.length := by
      induction ss with
      | nil => rfl
      | cons t ts ih => simp [ih, h]; omega
    simp [join_cons, hrest]
    omega

/-! ## Letter case -/

theorem sameLetters_iff {s t : CStr} :
    sameLetters s t = true ↔ s.bytes.map tolower = t.bytes.map tolower := by simp [sameLetters]

@[simp]
theorem sameLetters_refl (s : CStr) : sameLetters s s = true := by simp [sameLetters]

theorem sameLetters_comm (s t : CStr) : sameLetters s t = sameLetters t s := by
  rw [Bool.eq_iff_iff, sameLetters_iff, sameLetters_iff]
  exact eq_comm

end CStr

end MlinkDevice
