import Mathlib.Data.List.Basic

/-!
# UTF-8 in byte lists

What cutting, joining and escaping do to a byte list that is UTF-8. A cut keeps it so
exactly where a character starts.
-/

namespace MlinkDevice.Utf8

def Valid (bs : List UInt8) : Prop := bs.toByteArray.IsValidUTF8

instance (bs : List UInt8) : Decidable (Valid bs) :=
  inferInstanceAs (Decidable bs.toByteArray.IsValidUTF8)

def IsAscii (b : UInt8) : Prop := b < 128

instance (b : UInt8) : Decidable (IsAscii b) := inferInstanceAs (Decidable (_ < _))

/-- A character starts at position `n`, or the list is over before it. -/
def StartsAt (bs : List UInt8) (n : ℕ) : Prop := ∀ b, bs[n]? = some b → b.IsUTF8FirstByte

/-- Only ASCII bytes are replaced, each by some ASCII bytes. -/
structure Escapes (escape : UInt8 → List UInt8) : Prop where
  copies : ∀ b, ¬IsAscii b → escape b = [b]
  ne_nil : ∀ b, IsAscii b → escape b ≠ []
  ascii : ∀ b, IsAscii b → ∀ c ∈ escape b, IsAscii c

/-! ## Cuts -/

theorem valid_nil : Valid [] := ByteArray.isValidUTF8_empty

theorem Valid.append {xs ys : List UInt8} (hxs : Valid xs) (hys : Valid ys) : Valid (xs ++ ys) := by
  unfold Valid
  rw [List.toByteArray_append]
  exact ByteArray.IsValidUTF8.append hxs hys

theorem toByteArray_take (bs : List UInt8) (n : ℕ) :
    (bs.take n).toByteArray = bs.toByteArray.extract 0 n := by
  apply ByteArray.ext
  simp [ByteArray.data_extract]

theorem toByteArray_drop (bs : List UInt8) (n : ℕ) :
    (bs.drop n).toByteArray = bs.toByteArray.extract n bs.length := by
  apply ByteArray.ext
  have h : (bs.drop n).take (bs.length - n) = bs.drop n := List.take_of_length_le (by simp)
  simp [ByteArray.data_extract, h]

theorem startsAt_of_length_le {bs : List UInt8} {n : ℕ} (h : bs.length ≤ n) : StartsAt bs n := by
  intro b hb
  rw [List.getElem?_eq_none h] at hb
  exact absurd hb.symm (Option.some_ne_none b)

theorem startsAt_of_lt {bs : List UInt8} {n : ℕ} (h : n < bs.length) :
    StartsAt bs n ↔ bs[n].IsUTF8FirstByte := by
  simp [StartsAt, List.getElem?_eq_getElem h]

theorem byteIdx_rawEndPos {bs : List UInt8} (h : Valid bs) :
    (String.rawEndPos ⟨bs.toByteArray, h⟩).byteIdx = bs.length :=
  List.size_toByteArray

theorem isValid_iff_startsAt {bs : List UInt8} (h : Valid bs) {n : ℕ} (hn : n ≤ bs.length) :
    String.Pos.Raw.IsValid ⟨bs.toByteArray, h⟩ ⟨n⟩ ↔ StartsAt bs n := by
  rw [String.Pos.Raw.isValid_iff_isUTF8FirstByte]
  have hsize := byteIdx_rawEndPos h
  rcases Nat.lt_or_eq_of_le hn with hlt | rfl
  · rw [startsAt_of_lt hlt, or_iff_right]
    · have hpos : (⟨n⟩ : String.Pos.Raw) < String.rawEndPos ⟨bs.toByteArray, h⟩ := by
        rw [String.Pos.Raw.lt_iff, hsize]
        exact hlt
      simp only [exists_prop_of_true hpos, String.getUTF8Byte, List.getElem_toByteArray]
    · intro hend
      rw [String.Pos.Raw.ext_iff, hsize] at hend
      exact absurd hend (Nat.ne_of_lt hlt)
  · refine ⟨fun _ => startsAt_of_length_le (Nat.le_refl _), fun _ => .inl ?_⟩
    rw [String.Pos.Raw.ext_iff, hsize]

theorem valid_take_iff {bs : List UInt8} (h : Valid bs) (n : ℕ) :
    Valid (bs.take n) ↔ StartsAt bs n := by
  rcases Nat.le_total bs.length n with hle | hle
  · rw [List.take_of_length_le hle]
    exact ⟨fun _ => startsAt_of_length_le hle, fun _ => h⟩
  · rw [← isValid_iff_startsAt h hle, String.Pos.Raw.isValid_iff_isValidUTF8_extract_zero, Valid,
      toByteArray_take, and_iff_right]
    rw [String.Pos.Raw.le_iff]
    exact Nat.le_trans hle (Nat.le_of_eq (byteIdx_rawEndPos h).symm)

example : Valid [0xE7, 0x81, 0xAF] ∧ ¬ Valid [0xE7, 0x81] := by decide

theorem Valid.drop {bs : List UInt8} (h : Valid bs) {n : ℕ} (hn : StartsAt bs n) :
    Valid (bs.drop n) := by
  rcases Nat.le_total bs.length n with hle | hle
  · rw [List.drop_of_length_le hle]
    exact valid_nil
  · have hpos := (isValid_iff_startsAt h hle).mpr hn
    have hsuffix := hpos.isValidUTF8_extract_utf8ByteSize
    unfold Valid
    rw [toByteArray_drop, ← List.size_toByteArray]
    exact hsuffix

/-! ## ASCII bytes -/

theorem IsAscii.forall {P : UInt8 → Prop} (hall : ∀ n < 128, P (UInt8.ofNat n)) {b : UInt8}
    (h : IsAscii b) : P b := by
  have hb := hall b.toNat (by simpa [IsAscii, UInt8.lt_iff_toNat_lt] using h)
  rwa [UInt8.ofNat_toNat] at hb

theorem IsAscii.isUTF8FirstByte {b : UInt8} (h : IsAscii b) : b.IsUTF8FirstByte :=
  h.forall (P := fun b => b.IsUTF8FirstByte) (by decide)

theorem utf8EncodeChar_ascii {b : UInt8} (h : IsAscii b) :
    String.utf8EncodeChar (Char.ofUInt8 b) = [b] :=
  h.forall (P := fun b => String.utf8EncodeChar (Char.ofUInt8 b) = [b]) (by decide)

theorem valid_cons_iff {b : UInt8} (h : IsAscii b) (bs : List UInt8) : Valid (b :: bs) ↔ Valid bs := by
  have happend : (b :: bs).toByteArray = [Char.ofUInt8 b].utf8Encode ++ bs.toByteArray := by
    rw [List.utf8Encode_singleton, utf8EncodeChar_ascii h, ← List.toByteArray_append,
      List.singleton_append]
  rw [Valid, happend, ByteArray.isValidUTF8_utf8Encode_singleton_append_iff, Valid]

theorem valid_ascii_append_iff {xs : List UInt8} (h : ∀ b ∈ xs, IsAscii b) (ys : List UInt8) :
    Valid (xs ++ ys) ↔ Valid ys := by
  induction xs with
  | nil => rfl
  | cons b xs ih =>
    obtain ⟨hb, hxs⟩ := List.forall_mem_cons.mp h
    rw [List.cons_append, valid_cons_iff hb, ih hxs]

theorem valid_of_ascii {bs : List UInt8} (h : ∀ b ∈ bs, IsAscii b) : Valid bs := by
  rw [← List.append_nil bs, valid_ascii_append_iff h]
  exact valid_nil

theorem valid_append_cons_iff {b : UInt8} (h : IsAscii b) (xs ys : List UInt8) :
    Valid (xs ++ b :: ys) ↔ Valid xs ∧ Valid ys := by
  constructor
  · intro hvalid
    have hstarts : StartsAt (xs ++ b :: ys) xs.length := by
      intro c hc
      have hb : (xs ++ b :: ys)[xs.length]? = some b := by simp
      obtain rfl := Option.some.inj (hb.symm.trans hc)
      exact h.isUTF8FirstByte
    have htake := (valid_take_iff hvalid xs.length).mpr hstarts
    have hdrop := hvalid.drop hstarts
    rw [List.take_left] at htake
    rw [List.drop_left, valid_cons_iff h] at hdrop
    exact ⟨htake, hdrop⟩
  · rintro ⟨hxs, hys⟩
    exact hxs.append ((valid_cons_iff h ys).mpr hys)

theorem valid_append_ascii_iff {ys : List UInt8} (h : ∀ b ∈ ys, IsAscii b) (xs : List UInt8) :
    Valid (xs ++ ys) ↔ Valid xs := by
  cases ys with
  | nil => rw [List.append_nil]
  | cons b ys =>
    obtain ⟨hb, hys⟩ := List.forall_mem_cons.mp h
    rw [valid_append_cons_iff hb, and_iff_left (valid_of_ascii hys)]

/-! ## Escapes -/

theorem Escapes.valid_append_iff {escape : UInt8 → List UInt8} (h : Escapes escape)
    (xs bs : List UInt8) : Valid (xs ++ bs.flatMap escape) ↔ Valid (xs ++ bs) := by
  induction bs generalizing xs with
  | nil => rfl
  | cons b bs ih =>
    rw [List.flatMap_cons]
    by_cases hb : IsAscii b
    · obtain ⟨c, cs, hescape⟩ := List.exists_cons_of_ne_nil (h.ne_nil b hb)
      have hascii := h.ascii b hb
      rw [hescape, List.forall_mem_cons] at hascii
      rw [hescape, List.cons_append, valid_append_cons_iff hascii.1, valid_append_cons_iff hb,
        valid_ascii_append_iff hascii.2]
      exact and_congr_right fun _ => ih []
    · rw [h.copies b hb, ← List.append_assoc, ih, List.append_assoc, List.singleton_append]

end MlinkDevice.Utf8
