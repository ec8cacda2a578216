import MlinkDevice.Json.Prefix

/-!
# The JSON library the code calls

`cJSON` is not part of the repository, so its parser and printer are parameters.
What a result relies on is one of the properties below, each documented behaviour
of the library. `reference` has all of them.
-/

namespace MlinkDevice

open CStr

/-- `cJSON_Parse` and `cJSON_PrintUnformatted`, with memory to spare. -/
structure CJsonLib where
  parse : CStr → Option CJson
  print : CJson → CStr

namespace CJsonLib

variable {L : CJsonLib}

/-- Parsing what was printed gives the same value, however deep it is nested. cJSON itself refuses
more than 1000 levels, and what is printed here has less than ten. -/
structure RoundTrips (L : CJsonLib) : Prop where
  parse_print : ∀ v : CJson, v.Plain → L.parse (L.print v) = some v

/-- Printing leaves no blanks, and copies the bytes of a string that need no escape. -/
structure PrintsCompactly (L : CJsonLib) : Prop where
  print_object : ∀ ms : List (CStr × CJson), L.print (.object ms) =
    lit "\x7b" ++ join (lit ",") (ms.map fun m => L.print (.string m.1) ++ lit ":" ++ L.print m.2) ++
      lit "\x7d"
  print_array : ∀ vs : List CJson,
    L.print (.array vs) = lit "[" ++ join (lit ",") (vs.map L.print) ++ lit "]"
  print_string : ∀ s : CStr, Json.IsPlain s → L.print (.string s) = lit "\"" ++ s ++ lit "\""

/-- A byte of a string is at most six in print. -/
structure EscapesShortly (L : CJsonLib) : Prop where
  strlen_string_le : ∀ s : CStr, (L.print (.string s)).strlen ≤ 6 * s.strlen + 2

/-- Parsing reads one object: it ignores the bytes after it, and fails on a text that
stops before the end of it. -/
structure ReadsOneObject (L : CJsonLib) : Prop where
  ignores_rest : ∀ (t : CStr) (ms : List (CStr × CJson)) (rest : CStr),
    L.parse t = some (.object ms) → L.parse (t ++ rest) = some (.object ms)
  rejects_truncated : ∀ (t : CStr) (ms : List (CStr × CJson)) (rest : CStr),
    L.parse (t ++ rest) = some (.object ms) → L.parse t ≠ some (.object ms) → L.parse t = none

/-! ## A library with these properties -/

def reference : CJsonLib := ⟨Json.parse, Json.print⟩

theorem reference_parse_print {v : CJson} (h : Json.Inverts v) :
    reference.parse (reference.print v) = some v :=
  h.parse_print

theorem reference_roundTrips : reference.RoundTrips := ⟨fun _ h => Json.parse_print h⟩

theorem reference_printsCompactly : reference.PrintsCompactly where
  print_object ms := by simp only [reference, Json.print, Json.printMembers_eq]
  print_array vs := by simp only [reference, Json.print, Json.printItems_eq]
  print_string s h := by simp only [reference, Json.print, Json.printString_plain h]

theorem reference_escapesShortly : reference.EscapesShortly where
  strlen_string_le s := by
    have hescape := Json.length_escape_le s.bytes
    simp only [reference, Json.print, strlen, Json.bytes_printString, List.length_cons,
      List.length_append, List.length_nil]
    omega

theorem reference_readsOneObject : reference.ReadsOneObject where
  ignores_rest _ _ rest h := Json.parse_append h rest
  rejects_truncated _ _ _ h ht := Json.parse_truncated h ht

/-! ## Lengths -/

theorem PrintsCompactly.strlen_array (hL : L.PrintsCompactly) (vs : List CJson) :
    (L.print (.array vs)).strlen = 2 + (vs.map fun v => (L.print v).strlen).sum + (vs.length - 1) := by
  rw [hL.print_array, strlen_append, strlen_append, strlen_join rfl, List.map_map, List.length_map]
  rw [show (lit "[").strlen = 1 from rfl, show (lit "]").strlen = 1 from rfl]
  simp only [Function.comp_def]
  omega

theorem PrintsCompactly.strlen_object (hL : L.PrintsCompactly) (ms : List (CStr × CJson)) :
    (L.print (.object ms)).strlen = 2 + (ms.map fun m =>
      (L.print (.string m.1)).strlen + 1 + (L.print m.2).strlen).sum + (ms.length - 1) := by
  rw [hL.print_object, strlen_append, strlen_append, strlen_join rfl, List.map_map, List.length_map]
  rw [show (lit "\x7b").strlen = 1 from rfl, show (lit "\x7d").strlen = 1 from rfl]
  simp only [Function.comp_def, strlen_append, show (lit ":").strlen = 1 from rfl]
  omega

theorem PrintsCompactly.strlen_string (hL : L.PrintsCompactly) {s : CStr}
    (h : Json.IsPlain s) : (L.print (.string s)).strlen = s.strlen + 2 := by
  rw [hL.print_string s h, strlen_append, strlen_append]
  rw [show (lit "\"").strlen = 1 from rfl]
  omega

end CJsonLib

end MlinkDevice
