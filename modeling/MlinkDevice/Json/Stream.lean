import MlinkDevice.Framing
import MlinkDevice.Json.Lib

/-!
# Objects in a stream

What a client makes of a stream of printed objects with nothing between them. It keeps its
bytes until they parse.
-/

namespace MlinkDevice

open CStr

namespace CJsonLib

variable {L : CJsonLib}

/-- A printed object that is not there to its last byte does not parse. -/
structure RejectsIncomplete (L : CJsonLib) : Prop where
  parse_incomplete : ∀ ms : List (CStr × CJson), (CJson.object ms).Plain → ∀ part rest : CStr,
    part ++ rest = L.print (.object ms) → rest ≠ ∅ → L.parse part = none

/-- What the bytes so far parse to. -/
def decode (L : CJsonLib) (bytes : List UInt8) : Option CJson := L.parse (ofMem bytes)

def readStream (L : CJsonLib) (stream : List UInt8) : Framing.Reader CJson UInt8 :=
  Framing.read L.decode stream

theorem print_ne_empty (hP : L.PrintsCompactly) (ms : List (CStr × CJson)) :
    L.print (.object ms) ≠ ∅ := by
  intro h
  have hlength := strlen_eq_zero.mpr h
  rw [hP.strlen_object] at hlength
  omega

theorem delimits_print (hL : L.RoundTrips) (hP : L.PrintsCompactly) (hI : L.RejectsIncomplete)
    {v : CJson} (hv : v.Plain) (hobject : v.isObject = true) :
    Framing.Delimits L.decode (L.print v).bytes v := by
  obtain ⟨ms, rfl⟩ : ∃ ms, v = .object ms := by
    cases v <;> simp [CJson.isObject] at hobject ⊢
  constructor
  · rw [Ne, ← bytes_empty, bytes_injective]
    exact print_ne_empty hP ms
  · rw [decode, ofMem_bytes, hL.parse_print _ hv]
  · intro part rest hpart hrest
    have hpartFree : 0 ∉ part := fun h =>
      (L.print (.object ms)).nulFree (hpart ▸ List.mem_append_left rest h)
    have hrestFree : 0 ∉ rest := fun h =>
      (L.print (.object ms)).nulFree (hpart ▸ List.mem_append_right part h)
    have happend : (⟨part, hpartFree⟩ ++ ⟨rest, hrestFree⟩ : CStr) = L.print (.object ms) :=
      CStr.ext hpart
    have hne : (⟨rest, hrestFree⟩ : CStr) ≠ ∅ := fun h => hrest (congrArg bytes h)
    have hnone := hI.parse_incomplete ms hv _ _ happend hne
    rw [decode, ← hnone]
    exact congrArg L.parse (ofMem_bytes ⟨part, hpartFree⟩)

theorem delimits_printed (hL : L.RoundTrips) (hP : L.PrintsCompactly) (hI : L.RejectsIncomplete)
    {vs : List CJson} (hvs : ∀ v ∈ vs, v.Plain ∧ v.isObject = true) :
    List.Forall₂ (Framing.Delimits L.decode) (vs.map fun v => (L.print v).bytes) vs := by
  rw [List.forall₂_map_left_iff, List.forall₂_same]
  exact fun v hv => delimits_print hL hP hI (hvs v hv).1 (hvs v hv).2

/-- The values in a stream of printed objects, and in the beginning of one. -/
theorem readStream_printed (hL : L.RoundTrips) (hP : L.PrintsCompactly) (hI : L.RejectsIncomplete)
    {vs : List CJson} (hvs : ∀ v ∈ vs, v.Plain ∧ v.isObject = true) :
    L.readStream ((vs.map L.print).flatMap bytes) = { frames := vs } ∧
      ∀ part, part <+: (vs.map L.print).flatMap bytes →
        ∃ n, (L.readStream part).frames = vs.take n := by
  have hwords := delimits_printed hL hP hI hvs
  have hstream : (vs.map L.print).flatMap bytes = (vs.map fun v => (L.print v).bytes).flatten := by
    rw [List.flatMap_map, List.flatMap_def]
  rw [hstream]
  refine ⟨Framing.read_words hwords, fun part hpart => ?_⟩
  obtain ⟨n, hframes, -⟩ := Framing.read_prefix hwords hpart
  exact ⟨n, hframes⟩

/-! ## A library with this property -/

theorem reference_rejectsIncomplete : reference.RejectsIncomplete where
  parse_incomplete ms hv part rest hpart hrest := by
    have hall : Json.parseValue ((Json.print (.object ms)).strlen + 1)
        (Json.print (.object ms)).bytes = some (.object ms, []) := by
      have h := Json.parseValue_print _ hv ((Json.print (.object ms)).strlen + 1) [] (by omega)
        (by simp [Json.NoDigit])
      rwa [List.append_nil] at h
    have hwhole : part ++ rest = Json.print (.object ms) := hpart
    rw [← hwhole, bytes_append, strlen_append] at hall
    cases hparse : reference.parse part with
    | none => rfl
    | some v =>
      have hobject : v.isObject = true := by
        have hne : part.bytes ≠ [] := by
          intro hnil
          have hparse : Json.parse part = some v := hparse
          simp [Json.parse, hnil, Json.parseValue_nil] at hparse
        have hparsed : Json.parse (part ++ rest) = some (.object ms) := by
          rw [hwhole, Json.parse_print hv]
        have hhead := (Json.parse_isObject hparsed).mp rfl
        rw [bytes_append, List.head?_append_of_ne_nil _ hne] at hhead
        exact (Json.parse_isObject hparse).mpr hhead
      obtain ⟨⟨v', left⟩, hvalue, rfl⟩ := Option.map_eq_some_iff.mp hparse
      have hmore := (Json.extends_all _).value _ _ _ hvalue (.inr hobject) rest.strlen rest.bytes
      rw [Nat.add_right_comm, hall] at hmore
      have hnil : left ++ rest.bytes = [] := (congrArg Prod.snd (Option.some.inj hmore)).symm
      exact absurd (CStr.ext (List.append_eq_nil_iff.mp hnil).2) hrest

end CJsonLib

end MlinkDevice
