import MlinkDevice.Json.Lib
import MlinkDevice.Utf8

/-!
# UTF-8 in JSON values

A printed text is UTF-8 exactly when the strings and names of the value are, since the
printer copies every byte that is not ASCII.
-/

namespace MlinkDevice

/-! ## C strings -/

namespace CStr

def IsUtf8 (s : CStr) : Prop := Utf8.Valid s.bytes

instance (s : CStr) : Decidable s.IsUtf8 := inferInstanceAs (Decidable (Utf8.Valid s.bytes))

def IsAscii (s : CStr) : Prop := ∀ b ∈ s.bytes, Utf8.IsAscii b

instance (s : CStr) : Decidable s.IsAscii := List.decidableBAll Utf8.IsAscii s.bytes

/-- A buffer that holds `n` bytes does not cut a character. -/
def CutsClean (s : CStr) (n : ℕ) : Prop := Utf8.StartsAt s.bytes n

@[simp]
theorem IsAscii.isUtf8 {s : CStr} (h : s.IsAscii) : s.IsUtf8 := Utf8.valid_of_ascii h

@[simp]
theorem isUtf8_empty : (∅ : CStr).IsUtf8 := Utf8.valid_nil

theorem strncpy_isUtf8_iff {s : CStr} (h : s.IsUtf8) (n : ℕ) :
    (s.strncpy n).IsUtf8 ↔ s.CutsClean n :=
  Utf8.valid_take_iff h n

theorem ascii_append_isUtf8_iff {s : CStr} (h : s.IsAscii) (t : CStr) :
    (s ++ t).IsUtf8 ↔ t.IsUtf8 :=
  Utf8.valid_ascii_append_iff h t.bytes

theorem append_ascii_isUtf8_iff {t : CStr} (h : t.IsAscii) (s : CStr) :
    (s ++ t).IsUtf8 ↔ s.IsUtf8 :=
  Utf8.valid_append_ascii_iff h s.bytes

theorem separated_isUtf8_iff {sep : CStr} (h : sep.IsAscii) (hne : sep ≠ ∅) (s t : CStr) :
    (s ++ sep ++ t).IsUtf8 ↔ s.IsUtf8 ∧ t.IsUtf8 := by
  have hne : sep.bytes ≠ [] := fun hnil => hne (bytes_injective.mp hnil)
  obtain ⟨b, bs, hsep⟩ := List.exists_cons_of_ne_nil hne
  rw [IsAscii, hsep, List.forall_mem_cons] at h
  have hbytes : (s ++ sep ++ t).bytes = s.bytes ++ b :: (bs ++ t.bytes) := by simp [hsep]
  rw [IsUtf8, hbytes, Utf8.valid_append_cons_iff h.1, Utf8.valid_ascii_append_iff h.2]
  rfl

theorem join_isUtf8_iff {sep : CStr} (h : sep.IsAscii) (hne : sep ≠ ∅) (ss : List CStr) :
    (join sep ss).IsUtf8 ↔ ∀ s ∈ ss, s.IsUtf8 := by
  cases ss with
  | nil => simp [join]
  | cons s ss =>
    rw [join_cons, List.forall_mem_cons]
    induction ss generalizing s with
    | nil => simp
    | cons t ss ih =>
      rw [List.foldr_cons, append_assoc sep, ← append_assoc, separated_isUtf8_iff h hne, ih,
        List.forall_mem_cons]

end CStr

/-! ## Values -/

namespace CJson

mutual
/-- The strings and the names in a value. -/
def strings : CJson → List CStr
  | .string s | .raw s => [s]
  | .array vs => stringsOfItems vs
  | .object ms => stringsOfMembers ms
  | .null | .bool _ | .number _ => []

def stringsOfItems : List CJson → List CStr
  | [] => []
  | v :: vs => v.strings ++ stringsOfItems vs

def stringsOfMembers : List (CStr × CJson) → List CStr
  | [] => []
  | (k, v) :: ms => k :: (v.strings ++ stringsOfMembers ms)
end

def IsUtf8 (v : CJson) : Prop := ∀ s ∈ v.strings, s.IsUtf8

instance (v : CJson) : Decidable v.IsUtf8 := List.decidableBAll CStr.IsUtf8 v.strings

@[simp]
theorem isUtf8_null : null.IsUtf8 := by simp [IsUtf8, strings]

@[simp]
theorem isUtf8_bool (b : Bool) : (bool b).IsUtf8 := by simp [IsUtf8, strings]

@[simp]
theorem isUtf8_number (q : ℚ) : (number q).IsUtf8 := by simp [IsUtf8, strings]

@[simp]
theorem isUtf8_string (s : CStr) : (string s).IsUtf8 ↔ s.IsUtf8 := by simp [IsUtf8, strings]

@[simp]
theorem isUtf8_raw (s : CStr) : (raw s).IsUtf8 ↔ s.IsUtf8 := by simp [IsUtf8, strings]

@[simp]
theorem isUtf8_array (vs : List CJson) : (array vs).IsUtf8 ↔ ∀ v ∈ vs, v.IsUtf8 := by
  unfold IsUtf8
  rw [strings]
  induction vs with
  | nil => simp [stringsOfItems]
  | cons v vs ih => rw [stringsOfItems, List.forall_mem_append, ih, List.forall_mem_cons]

@[simp]
theorem isUtf8_object (ms : List (CStr × CJson)) :
    (object ms).IsUtf8 ↔ ∀ m ∈ ms, m.1.IsUtf8 ∧ m.2.IsUtf8 := by
  unfold IsUtf8
  rw [strings]
  induction ms with
  | nil => simp [stringsOfMembers]
  | cons m ms ih =>
    rw [stringsOfMembers, List.forall_mem_cons, List.forall_mem_append, ih, List.forall_mem_cons,
      and_assoc]

theorem IsUtf8.getObjectItem {v w : CJson} {name : CStr} (h : v.IsUtf8)
    (hitem : v.getObjectItem name = some w) : w.IsUtf8 := by
  cases v with
  | object ms =>
    obtain ⟨m, hfind, rfl⟩ := Option.map_eq_some_iff.mp hitem
    exact ((isUtf8_object ms).mp h m (List.mem_of_find?_eq_some hfind)).2
  | _ => exact absurd hitem.symm (Option.some_ne_none w)

end CJson

/-! ## The library -/

namespace CJsonLib

variable {L : CJsonLib}

/-- What a string is printed to: its bytes between quotes, with an escape for some that are
ASCII. Everything else is printed in ASCII, and raw text as it is. -/
structure CopiesStrings (L : CJsonLib) : Prop extends PrintsCompactly L where
  print_escaped : ∃ escape, Utf8.Escapes escape ∧ ∀ s : CStr,
    (L.print (.string s)).bytes = 34 :: (s.bytes.flatMap escape ++ [34])
  print_null : (L.print .null).IsAscii
  print_bool : ∀ b, (L.print (.bool b)).IsAscii
  print_number : ∀ q, (L.print (.number q)).IsAscii
  print_raw : ∀ s, L.print (.raw s) = s

/-- A text that is UTF-8 has strings that are, also where it spells them with escapes. -/
structure ReadsUtf8 (L : CJsonLib) : Prop where
  parse_isUtf8 : ∀ (t : CStr) (v : CJson), t.IsUtf8 → L.parse t = some v → v.IsUtf8

theorem CopiesStrings.print_string_isUtf8_iff (hL : L.CopiesStrings) (s : CStr) :
    (L.print (.string s)).IsUtf8 ↔ s.IsUtf8 := by
  obtain ⟨escape, hescape, hprint⟩ := hL.print_escaped
  have hquote : Utf8.IsAscii 34 := by decide
  rw [CStr.IsUtf8, hprint, Utf8.valid_cons_iff hquote, Utf8.valid_append_cons_iff hquote,
    and_iff_left Utf8.valid_nil]
  exact hescape.valid_append_iff [] s.bytes

theorem CopiesStrings.print_isUtf8_iff (hL : L.CopiesStrings) (v : CJson) :
    (L.print v).IsUtf8 ↔ v.IsUtf8 := by
  have henclosed : ∀ {a b : CStr}, a.IsAscii → b.IsAscii → ∀ s, (a ++ s ++ b).IsUtf8 ↔ s.IsUtf8 :=
    fun ha hb s => by rw [CStr.append_ascii_isUtf8_iff hb, CStr.ascii_append_isUtf8_iff ha]
  induction v using CJson.induct with
  | null => simpa using hL.print_null.isUtf8
  | bool b => simpa using (hL.print_bool b).isUtf8
  | number q => simpa using (hL.print_number q).isUtf8
  | string s => rw [hL.print_string_isUtf8_iff, CJson.isUtf8_string]
  | raw s => rw [hL.print_raw, CJson.isUtf8_raw]
  | array vs ih =>
    rw [hL.print_array, henclosed (by decide) (by decide),
      CStr.join_isUtf8_iff (by decide) (by decide), List.forall_mem_map, CJson.isUtf8_array]
    exact forall₂_congr ih
  | object ms ih =>
    rw [hL.print_object, henclosed (by decide) (by decide),
      CStr.join_isUtf8_iff (by decide) (by decide), List.forall_mem_map, CJson.isUtf8_object]
    refine forall₂_congr fun m hm => ?_
    rw [CStr.separated_isUtf8_iff (by decide) (by decide), hL.print_string_isUtf8_iff]
    exact and_congr_right fun _ => ih m hm

/-! ## A library with these properties -/

theorem shortEscape_isAscii {b e : UInt8} (h : Json.shortEscape b = some e) : Utf8.IsAscii e := by
  unfold Json.shortEscape at h
  split_ifs at h <;> obtain rfl := Option.some.inj h <;> decide

theorem hexDigit_isAscii {n : ℕ} (h : n < 16) : Utf8.IsAscii (Json.hexDigit n) := by
  revert n
  decide

theorem escapeByte_isAscii {b c : UInt8} (hb : Utf8.IsAscii b) (hc : c ∈ Json.escapeByte b) :
    Utf8.IsAscii c := by
  unfold Json.escapeByte at hc
  split at hc
  · rename_i e he
    rcases List.mem_pair.mp hc with rfl | rfl
    · decide
    · exact shortEscape_isAscii he
  · split at hc
    · have h1 := hexDigit_isAscii (Nat.div_lt_of_lt_mul (show b.toNat < 16 * 16 from b.toNat_lt))
      have h2 := hexDigit_isAscii (Nat.mod_lt b.toNat (show 0 < 16 by decide))
      simp only [List.mem_cons, List.not_mem_nil, or_false] at hc
      rcases hc with rfl | rfl | rfl | rfl | rfl | rfl
      iterate 4 decide
      · exact h1
      · exact h2
    · obtain rfl := List.mem_singleton.mp hc
      exact hb

theorem escapeByte_escapes : Utf8.Escapes Json.escapeByte where
  copies b hb := by
    apply Json.escapeByte_plain
    have hb : 128 ≤ b.toNat := by simpa [Utf8.IsAscii, UInt8.lt_iff_toNat_lt] using hb
    refine ⟨UInt8.le_iff_toNat_le.mpr (le_trans (by decide) hb), ?_, ?_⟩
    all_goals
      rintro rfl
      exact absurd hb (by decide)
  ne_nil b _ := by
    unfold Json.escapeByte
    split
    · exact List.cons_ne_nil _ _
    · split <;> exact List.cons_ne_nil _ _
  ascii _ hb _ hc := escapeByte_isAscii hb hc

theorem printInt_isAscii (i : ℤ) : (Json.printInt i).IsAscii := by
  intro b hb
  rcases List.mem_append.mp hb with hsign | hdigit
  · split at hsign
    · obtain rfl := List.mem_singleton.mp hsign
      decide
    · exact absurd hsign List.not_mem_nil
  · have := (Json.decimal_digits i.natAbs b hdigit).2
    exact UInt8.lt_iff_toNat_lt.mpr (lt_of_le_of_lt this (by decide))

theorem reference_copiesStrings : reference.CopiesStrings where
  toPrintsCompactly := reference_printsCompactly
  print_escaped := ⟨Json.escapeByte, escapeByte_escapes, fun _ => rfl⟩
  print_null := by decide
  print_bool := by decide
  print_number q := by
    change (Json.printNumber q).IsAscii
    unfold Json.printNumber
    split
    · exact printInt_isAscii _
    · decide
  print_raw _ := rfl

/-- `Json.parse` reads some escapes as single bytes, and such a text is refused here. -/
def referenceUtf8 : CJsonLib where
  parse t := (Json.parse t).filter fun v => t.IsUtf8 → v.IsUtf8
  print := Json.print

theorem referenceUtf8_copiesStrings : referenceUtf8.CopiesStrings := by
  obtain ⟨⟨hobject, harray, hstring⟩, hescaped, hnull, hbool, hnumber, hraw⟩ := reference_copiesStrings
  exact ⟨⟨hobject, harray, hstring⟩, hescaped, hnull, hbool, hnumber, hraw⟩

theorem referenceUtf8_readsUtf8 : referenceUtf8.ReadsUtf8 where
  parse_isUtf8 t v ht hparse := by
    obtain ⟨-, hutf8⟩ := Option.filter_eq_some_iff.mp hparse
    exact of_decide_eq_true hutf8 ht

theorem referenceUtf8_roundTrips : referenceUtf8.RoundTrips where
  parse_print v hv := by
    refine Option.filter_eq_some_iff.mpr ⟨Json.parse_print hv, decide_eq_true ?_⟩
    exact (referenceUtf8_copiesStrings.print_isUtf8_iff v).mp

end CJsonLib

end MlinkDevice
