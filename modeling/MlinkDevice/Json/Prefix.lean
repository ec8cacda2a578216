import MlinkDevice.Json.Parse

/-!
# Texts that begin with an object

Bytes after an object change nothing (`parse_append`), and a text cut before the
end of its object has no value (`parse_truncated`).
-/

namespace MlinkDevice.Json

open CStr

/-! ## Pieces of a value -/

theorem unescape_append {t s r : List UInt8} (h : unescape t = some (s, r)) (x : List UInt8) :
    unescape (t ++ x) = some (s, r ++ x) := by
  induction t using unescape.induct generalizing s r with
  | case1 => simp [unescape] at h
  | case2 t =>
    rw [unescape_quote] at h
    cases h
    exact unescape_quote _
  | case3 a b c d t _ ih =>
    rw [unescape_hex, Option.map_eq_some_iff] at h
    obtain ⟨⟨s', r'⟩, ht, hp⟩ := h
    cases hp
    simp only [List.cons_append]
    rw [unescape_hex, ih ht]
    rfl
  | case4 e t hshort _ ih =>
    by_cases he : e = 117
    · -- Fewer than four digits after `\u`.
      subst he
      rw [unescape.eq_def] at h
      simp [longEscape] at h
    · rw [unescape_short he, Option.bind_eq_some_iff] at h
      obtain ⟨c, hc, h⟩ := h
      obtain ⟨⟨s', r'⟩, ht, hp⟩ := Option.map_eq_some_iff.mp h
      cases hp
      simp only [List.cons_append]
      rw [unescape_short he, hc, ih ht]
      rfl
  | case5 =>
    rw [unescape.eq_def] at h
    simp at h
  | case6 b t hquote hslash ih =>
    rw [unescape_plain hquote hslash, Option.map_eq_some_iff] at h
    obtain ⟨⟨s', r'⟩, ht, hp⟩ := h
    cases hp
    rw [List.cons_append, unescape_plain hquote hslash, ih ht]
    rfl

theorem span_append {p : UInt8 → Bool} {t : List UInt8} (h : t.dropWhile p ≠ []) (x : List UInt8) :
    (t ++ x).takeWhile p = t.takeWhile p ∧ (t ++ x).dropWhile p = t.dropWhile p ++ x := by
  induction t with
  | nil => simp at h
  | cons b t ih =>
    cases hb : p b with
    | false => simp [hb]
    | true =>
      have ih := ih (by simpa [hb] using h)
      simp [hb, ih]

theorem parseDigits_append {t r : List UInt8} {n : ℕ} (h : parseDigits t = some (n, r))
    (hr : r ≠ []) (x : List UInt8) : parseDigits (t ++ x) = some (n, r ++ x) := by
  unfold parseDigits at h ⊢
  split at h
  · simp at h
  · simp only [Option.some.injEq, Prod.mk.injEq] at h
    obtain ⟨rfl, rfl⟩ := h
    obtain ⟨htake, hdrop⟩ := span_append hr x
    rw [htake, hdrop, if_neg (by assumption)]

theorem parseNumber_append {t r : List UInt8} {q : ℚ} (h : parseNumber t = some (q, r))
    (hr : r ≠ []) (x : List UInt8) : parseNumber (t ++ x) = some (q, r ++ x) := by
  cases t with
  | nil => simp [parseNumber] at h
  | cons b t =>
    simp only [parseNumber, List.cons_append] at h ⊢
    split at h <;>
    · obtain ⟨⟨n, r'⟩, hn, hp⟩ := Option.map_eq_some_iff.mp h
      cases hp
      have := parseDigits_append hn hr x
      simp_all

theorem parseNumber_head {b : UInt8} {t r : List UInt8} {q : ℚ}
    (h : parseNumber (b :: t) = some (q, r)) : b.toNat ≤ 57 := by
  by_cases hb : b = 45
  · subst hb
    decide
  · simp only [parseNumber, if_neg hb, parseDigits] at h
    cases hdigit : isDigit b with
    | false => simp [hdigit] at h
    | true =>
      simp only [isDigit, decide_eq_true_eq] at hdigit
      exact hdigit.2

theorem stripWord_append {word : String} {t r : List UInt8} (h : stripWord word t = some r)
    (x : List UInt8) : stripWord word (t ++ x) = some (r ++ x) := by
  unfold stripWord at h ⊢
  split at h
  · rename_i hpre
    cases h
    rw [if_pos (hpre.trans (List.prefix_append t x)), List.drop_append_of_le_length]
    exact hpre.length_le
  · simp at h

theorem stripWord_head {word : String} {w : UInt8} {t r ws : List UInt8}
    (hword : (lit word).bytes = w :: ws) (h : stripWord word t = some r) :
    ∃ t', t = w :: t' := by
  unfold stripWord at h
  split at h
  · rename_i hpre
    obtain ⟨t', rfl⟩ := hpre
    exact ⟨ws ++ t', by rw [hword, List.cons_append]⟩
  · simp at h

theorem parseScalar_append {t r : List UInt8} {v : CJson} (h : parseScalar t = some (v, r))
    (hr : r ≠ []) (x : List UInt8) : parseScalar (t ++ x) = some (v, r ++ x) := by
  unfold parseScalar at h
  split at h
  · rename_i hnull
    cases h
    simp only [parseScalar, stripWord_append hnull]
  · rename_i htrue
    cases h
    obtain ⟨t', rfl⟩ := stripWord_head (w := 116) rfl htrue
    have hnull := stripWord_cons "null" (b := 116) rfl (by decide) (t' ++ x)
    have htrue := stripWord_append htrue x
    rw [List.cons_append] at *
    simp only [parseScalar, hnull, htrue]
  · rename_i hfalse
    cases h
    obtain ⟨t', rfl⟩ := stripWord_head (w := 102) rfl hfalse
    have hnull := stripWord_cons "null" (b := 102) rfl (by decide) (t' ++ x)
    have htrue := stripWord_cons "true" (b := 102) rfl (by decide) (t' ++ x)
    have hfalse := stripWord_append hfalse x
    rw [List.cons_append] at *
    simp only [parseScalar, hnull, htrue, hfalse]
  · obtain ⟨⟨q, r'⟩, hnum, hp⟩ := Option.map_eq_some_iff.mp h
    cases hp
    cases t with
    | nil => simp [parseNumber] at hnum
    | cons b t =>
      have hx := parseNumber_append hnum hr x
      rw [List.cons_append] at hx ⊢
      rw [parseScalar_number (parseNumber_head hnum), hx]
      rfl

/-! ## Values -/

/-- What `parse_append` says of the three parsers at one fuel. -/
structure Extends (fuel : ℕ) : Prop where
  value : ∀ t v r, parseValue fuel t = some (v, r) → r ≠ [] ∨ v.isObject = true →
    ∀ more x, parseValue (fuel + more) (t ++ x) = some (v, r ++ x)
  items : ∀ t vs r, parseItems fuel t = some (vs, r) →
    ∀ more x, parseItems (fuel + more) (t ++ x) = some (vs, r ++ x)
  members : ∀ t ms r, parseMembers fuel t = some (ms, r) →
    ∀ more x, parseMembers (fuel + more) (t ++ x) = some (ms, r ++ x)

theorem parseScalar_isObject {t r : List UInt8} {v : CJson} (h : parseScalar t = some (v, r)) :
    v.isObject = false := by
  unfold parseScalar at h
  split at h
  case h_4 =>
    obtain ⟨p, -, hp⟩ := Option.map_eq_some_iff.mp h
    cases hp
    rfl
  all_goals
    cases h
    rfl

theorem parseValue_nil (fuel : ℕ) : parseValue fuel [] = none := by
  cases fuel <;> rw [parseValue]

theorem parseItems_nil (fuel : ℕ) : parseItems fuel [] = none := by
  cases fuel with
  | zero => rw [parseItems]
  | succ fuel => rw [parseItems, parseValue_nil]

theorem parseMembers_nil (fuel : ℕ) : parseMembers fuel [] = none := by
  cases fuel <;> simp [parseMembers]

theorem extends_value {fuel : ℕ} (ih : Extends fuel) {t r : List UInt8} {v : CJson}
    (h : parseValue (fuel + 1) t = some (v, r)) (hr : r ≠ [] ∨ v.isObject = true) (more : ℕ)
    (x : List UInt8) : parseValue (fuel + more + 1) (t ++ x) = some (v, r ++ x) := by
  cases t with
  | nil => simp [parseValue] at h
  | cons b t =>
    unfold parseValue at h
    rw [List.cons_append, parseValue]
    by_cases hquote : b = 34
    · rw [if_pos hquote] at h ⊢
      obtain ⟨⟨s, r'⟩, hs, hp⟩ := Option.map_eq_some_iff.mp h
      cases hp
      rw [unescape_append hs]
      rfl
    rw [if_neg hquote] at h ⊢
    by_cases hbracket : b = 91
    · rw [if_pos hbracket] at h ⊢
      by_cases hclosed : t.head? = some 93
      · obtain ⟨t, rfl⟩ := List.head?_eq_some_iff.mp hclosed
        rw [if_pos hclosed] at h
        cases h
        rfl
      · rw [if_neg hclosed] at h
        obtain ⟨⟨vs, r'⟩, hvs, hp⟩ := Option.map_eq_some_iff.mp h
        cases hp
        have ht : t ≠ [] := by
          rintro rfl
          simp [parseItems_nil] at hvs
        rw [List.head?_append_of_ne_nil _ ht, if_neg hclosed, ih.items _ _ _ hvs]
        rfl
    rw [if_neg hbracket] at h ⊢
    by_cases hbrace : b = 123
    · rw [if_pos hbrace] at h ⊢
      by_cases hclosed : t.head? = some 125
      · obtain ⟨t, rfl⟩ := List.head?_eq_some_iff.mp hclosed
        rw [if_pos hclosed] at h
        cases h
        rfl
      · rw [if_neg hclosed] at h
        obtain ⟨⟨ms, r'⟩, hms, hp⟩ := Option.map_eq_some_iff.mp h
        cases hp
        have ht : t ≠ [] := by
          rintro rfl
          simp [parseMembers_nil] at hms
        rw [List.head?_append_of_ne_nil _ ht, if_neg hclosed, ih.members _ _ _ hms]
        rfl
    rw [if_neg hbrace] at h ⊢
    have hr : r ≠ [] := by
      rcases hr with hr | hobj
      · exact hr
      · simp [parseScalar_isObject h] at hobj
    exact parseScalar_append h hr x

theorem extends_items {fuel : ℕ} (ih : Extends fuel) {t r : List UInt8} {vs : List CJson}
    (h : parseItems (fuel + 1) t = some (vs, r)) (more : ℕ) (x : List UInt8) :
    parseItems (fuel + more + 1) (t ++ x) = some (vs, r ++ x) := by
  rw [parseItems] at h ⊢
  split at h
  · rename_i v r' hv
    rw [ih.value _ _ _ hv (Or.inl (by simp)), List.cons_append]
    obtain ⟨⟨vs', r''⟩, hvs, hp⟩ := Option.map_eq_some_iff.mp h
    cases hp
    simp only [ih.items _ _ _ hvs, Option.map_some]
  · rename_i v r' hv
    cases h
    rw [ih.value _ _ _ hv (Or.inl (by simp)), List.cons_append]
    rfl
  · simp at h

theorem extends_members {fuel : ℕ} (ih : Extends fuel) {t r : List UInt8}
    {ms : List (CStr × CJson)} (h : parseMembers (fuel + 1) t = some (ms, r)) (more : ℕ)
    (x : List UInt8) : parseMembers (fuel + more + 1) (t ++ x) = some (ms, r ++ x) := by
  match t with
  | [] => simp [parseMembers_nil] at h
  | b :: t =>
    by_cases hquote : b = 34
    · subst hquote
      rw [parseMembers] at h
      rw [List.cons_append, parseMembers]
      split at h
      · rename_i k t' hk
        rw [unescape_append hk, List.cons_append]
        split at h
        · rename_i v r' hv
          obtain ⟨⟨ms', r''⟩, hms, hp⟩ := Option.map_eq_some_iff.mp h
          cases hp
          simp only [ih.value _ _ _ hv (Or.inl (by simp)), List.cons_append,
            ih.members _ _ _ hms, Option.map_some]
        · rename_i v r' hv
          cases h
          simp only [ih.value _ _ _ hv (Or.inl (by simp)), List.cons_append]
        · simp at h
      · simp at h
    · rw [parseMembers] at h
      · simp at h
      · simpa using hquote

theorem extends_all (fuel : ℕ) : Extends fuel := by
  induction fuel with
  | zero => constructor <;> simp [parseValue, parseItems, parseMembers]
  | succ fuel ih =>
    constructor
    · intro t v r h hr more x
      rw [Nat.add_right_comm]
      exact extends_value ih h hr more x
    · intro t vs r h more x
      rw [Nat.add_right_comm]
      exact extends_items ih h more x
    · intro t ms r h more x
      rw [Nat.add_right_comm]
      exact extends_members ih h more x

theorem parse_append {t : CStr} {ms : List (CStr × CJson)} (h : parse t = some (.object ms))
    (x : CStr) : parse (t ++ x) = some (.object ms) := by
  obtain ⟨⟨v, r⟩, hv, hobj⟩ := Option.map_eq_some_iff.mp h
  simp only at hobj
  subst hobj
  have := (extends_all _).value _ _ _ hv (Or.inr rfl) x.strlen x.bytes
  unfold parse
  rw [strlen_append, bytes_append, Nat.add_right_comm, this]
  rfl

theorem parse_isObject {t : CStr} {v : CJson} (h : parse t = some v) :
    v.isObject = true ↔ t.bytes.head? = some 123 := by
  obtain ⟨⟨v, r⟩, hv, rfl⟩ := Option.map_eq_some_iff.mp h
  cases ht : t.bytes with
  | nil => simp [ht, parseValue_nil] at hv
  | cons b bs =>
    rw [ht, parseValue] at hv
    simp only [List.head?_cons, Option.some.injEq]
    split_ifs at hv with hquote hbracket hclosed hbrace hclosed
    · obtain ⟨p, -, hp⟩ := Option.map_eq_some_iff.mp hv
      cases hp
      simp [CJson.isObject, hquote]
    · cases hv
      simp [CJson.isObject, hbracket]
    · obtain ⟨p, -, hp⟩ := Option.map_eq_some_iff.mp hv
      cases hp
      simp [CJson.isObject, hbracket]
    · cases hv
      simp [CJson.isObject, hbrace]
    · obtain ⟨p, -, hp⟩ := Option.map_eq_some_iff.mp hv
      cases hp
      simp [CJson.isObject, hbrace]
    · simp [parseScalar_isObject hv, hbrace]

/-- A text that begins an object's text holds the whole object or no value at all. -/
theorem parse_truncated {p x : CStr} {ms : List (CStr × CJson)}
    (h : parse (p ++ x) = some (.object ms)) (hp : parse p ≠ some (.object ms)) :
    parse p = none := by
  cases hv : parse p with
  | none => rfl
  | some v =>
    have hne : p.bytes ≠ [] := by
      intro hnil
      simp [parse, hnil, parseValue_nil] at hv
    have hhead := (parse_isObject h).mp rfl
    rw [bytes_append, List.head?_append_of_ne_nil _ hne] at hhead
    have hobj := (parse_isObject hv).mpr hhead
    cases v with
    | object ms' =>
      rw [parse_append hv x] at h
      exact absurd (hv.trans h) hp
    | _ => simp [CJson.isObject] at hobj

end MlinkDevice.Json
