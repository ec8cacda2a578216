import MlinkDevice.Json.Print

/-!
# Reading compact text

A recursive descent parser for the texts of `Print.lean`. It reads one value and
returns the bytes after it. `parse_print` says that it inverts the printer.

The bytes that matter: `"` is 34, `,` 44, `-` 45, `:` 58, `[` 91, `\` 92, `]` 93,
`u` 117, `{` 123 and `}` 125.
-/

namespace MlinkDevice.Json

open CStr

/-! ## Pieces of a value -/

def isDigit (b : UInt8) : Bool := 48 ≤ b.toNat ∧ b.toNat ≤ 57

def digitsVal (ds : List UInt8) : ℕ := ds.foldl (fun v d => 10 * v + (d.toNat - 48)) 0

def parseDigits (t : List UInt8) : Option (ℕ × List UInt8) :=
  if t.takeWhile isDigit = [] then none
  else some (digitsVal (t.takeWhile isDigit), t.dropWhile isDigit)

def parseNumber (t : List UInt8) : Option (ℚ × List UInt8) :=
  match t with
  | [] => none
  | b :: r =>
    if b = 45 then (parseDigits r).map fun p => (-(p.1 : ℚ), p.2)
    else (parseDigits (b :: r)).map fun p => ((p.1 : ℚ), p.2)

def hexVal (b : UInt8) : ℕ := if b.toNat < 58 then b.toNat - 48 else b.toNat - 87

def longEscape (e : UInt8) : Option UInt8 :=
  if e = 34 then some 34 else if e = 92 then some 92 else if e = 98 then some 8
  else if e = 102 then some 12 else if e = 110 then some 10 else if e = 114 then some 13
  else if e = 116 then some 9 else none

def unescape : List UInt8 → Option (List UInt8 × List UInt8)
  | [] => none
  | b :: r =>
    if b = 34 then some ([], r)
    else if b = 92 then
      match r with
      | 117 :: _ :: _ :: h :: l :: r' =>
        (unescape r').map fun p => (UInt8.ofNat (16 * hexVal h + hexVal l) :: p.1, p.2)
      | e :: r' => (longEscape e).bind fun c => (unescape r').map fun p => (c :: p.1, p.2)
      | [] => none
    else (unescape r).map fun p => (b :: p.1, p.2)

def stripWord (word : String) (t : List UInt8) : Option (List UInt8) :=
  if (lit word).bytes <+: t then some (t.drop (lit word).strlen) else none

def parseScalar (t : List UInt8) : Option (CJson × List UInt8) :=
  match stripWord "null" t, stripWord "true" t, stripWord "false" t with
  | some r, _, _ => some (.null, r)
  | none, some r, _ => some (.bool true, r)
  | none, none, some r => some (.bool false, r)
  | none, none, none => (parseNumber t).map fun p => (.number p.1, p.2)

/-! ## Values -/

mutual
def parseValue : ℕ → List UInt8 → Option (CJson × List UInt8)
  | 0, _ => none
  | _ + 1, [] => none
  | fuel + 1, b :: r =>
    if b = 34 then (unescape r).map fun p => (.string (ofMem p.1), p.2)
    else if b = 91 then
      if r.head? = some 93 then some (.array [], r.drop 1)
      else (parseItems fuel r).map fun p => (.array p.1, p.2)
    else if b = 123 then
      if r.head? = some 125 then some (.object [], r.drop 1)
      else (parseMembers fuel r).map fun p => (.object p.1, p.2)
    else parseScalar (b :: r)

def parseItems : ℕ → List UInt8 → Option (List CJson × List UInt8)
  | 0, _ => none
  | fuel + 1, t =>
    match parseValue fuel t with
    | some (v, 44 :: r) => (parseItems fuel r).map fun p => (v :: p.1, p.2)
    | some (v, 93 :: r) => some ([v], r)
    | _ => none

def parseMembers : ℕ → List UInt8 → Option (List (CStr × CJson) × List UInt8)
  | 0, _ => none
  | fuel + 1, 34 :: t =>
    match unescape t with
    | some (k, 58 :: t') =>
      match parseValue fuel t' with
      | some (v, 44 :: r) => (parseMembers fuel r).map fun p => ((ofMem k, v) :: p.1, p.2)
      | some (v, 125 :: r) => some ([(ofMem k, v)], r)
      | _ => none
    | _ => none
  | _ + 1, _ => none
end

/-- One value; what follows it is ignored. -/
def parse (t : CStr) : Option CJson := (parseValue (t.strlen + 1) t.bytes).map (·.1)

/-! ## Strings -/

theorem longEscape_shortEscape {b e : UInt8} (h : shortEscape b = some e) :
    longEscape e = some b ∧ e ≠ 117 := by
  unfold shortEscape at h
  split_ifs at h <;> simp only [Option.some.injEq] at h <;> subst_vars <;> decide

theorem shortEscape_none {b : UInt8} (h : shortEscape b = none) : b ≠ 34 ∧ b ≠ 92 := by
  unfold shortEscape at h
  split_ifs at h
  exact ⟨by assumption, by assumption⟩

theorem hexVal_hexDigit {n : ℕ} (h : n < 16) : hexVal (hexDigit n) = n := by
  revert n
  decide

theorem unescape_quote (r : List UInt8) : unescape (34 :: r) = some ([], r) := by
  rw [unescape.eq_def]
  rfl

theorem unescape_plain {b : UInt8} (hquote : b ≠ 34) (hslash : b ≠ 92) (r : List UInt8) :
    unescape (b :: r) = (unescape r).map fun p => (b :: p.1, p.2) := by
  rw [unescape.eq_def]
  simp only [if_neg hquote, if_neg hslash]

theorem unescape_short {e : UInt8} (h : e ≠ 117) (r : List UInt8) :
    unescape (92 :: e :: r) =
      (longEscape e).bind fun c => (unescape r).map fun p => (c :: p.1, p.2) := by
  rw [unescape.eq_def]
  simp [h]

theorem unescape_hex (a b h l : UInt8) (r : List UInt8) :
    unescape (92 :: 117 :: a :: b :: h :: l :: r) =
      (unescape r).map fun p => (UInt8.ofNat (16 * hexVal h + hexVal l) :: p.1, p.2) := by
  rw [unescape.eq_def]
  rfl

theorem unescape_escapeByte (b : UInt8) (t : List UInt8) :
    unescape (escapeByte b ++ t) = (unescape t).map fun p => (b :: p.1, p.2) := by
  unfold escapeByte
  split
  · rename_i e he
    obtain ⟨hlong, hu⟩ := longEscape_shortEscape he
    rw [List.cons_append, List.cons_append, List.nil_append, unescape_short hu, hlong]
    rfl
  · rename_i hnone
    obtain ⟨hquote, hslash⟩ := shortEscape_none hnone
    split
    · rename_i h
      have h32 : b.toNat < 32 := by simpa [UInt8.lt_iff_toNat_lt] using h
      have hb : UInt8.ofNat (16 * (b.toNat / 16) + b.toNat % 16) = b := by
        rw [Nat.div_add_mod, UInt8.ofNat_toNat]
      simp only [List.cons_append, List.nil_append, unescape_hex,
        hexVal_hexDigit (show b.toNat / 16 < 16 by omega),
        hexVal_hexDigit (show b.toNat % 16 < 16 by omega), hb]
    · exact unescape_plain hquote hslash t

theorem unescape_escape (bs r : List UInt8) : unescape (escape bs ++ 34 :: r) = some (bs, r) := by
  induction bs with
  | nil => exact unescape_quote r
  | cons b bs ih =>
    unfold escape
    rw [List.flatMap_cons, List.append_assoc, unescape_escapeByte]
    unfold escape at ih
    rw [ih]
    rfl

/-! ## Numbers -/

def NoDigit (r : List UInt8) : Prop := ∀ b ∈ r.head?, isDigit b = false

theorem span_digits {ds r : List UInt8} (hds : ∀ b ∈ ds, isDigit b = true) (hr : NoDigit r) :
    (ds ++ r).takeWhile isDigit = ds ∧ (ds ++ r).dropWhile isDigit = r := by
  induction ds with
  | nil =>
    cases r with
    | nil => simp
    | cons b r => simp [hr b (by simp)]
  | cons d ds ih =>
    have hd := hds d List.mem_cons_self
    have ih := ih fun b hb => hds b (List.mem_cons_of_mem _ hb)
    simp [hd, ih]

theorem digitsVal_append_one (ds : List UInt8) (d : UInt8) :
    digitsVal (ds ++ [d]) = 10 * digitsVal ds + (d.toNat - 48) := by
  simp [digitsVal]

theorem digitsVal_decimal (n : ℕ) : digitsVal (decimal n) = n := by
  induction n using Nat.strong_induction_on with
  | _ n ih =>
    have hlast := digit_toNat (Nat.mod_lt n (show 10 > 0 by omega))
    rw [decimal, digitsVal_append_one, hlast]
    split
    · simp only [digitsVal, List.foldl_nil]
      omega
    · rw [ih (n / 10) (by omega)]
      omega

theorem isDigit_decimal (n : ℕ) : ∀ b ∈ decimal n, isDigit b = true := by
  intro b hb
  simpa [isDigit] using decimal_digits n b hb

theorem parseDigits_decimal (n : ℕ) {r : List UInt8} (hr : NoDigit r) :
    parseDigits (decimal n ++ r) = some (n, r) := by
  obtain ⟨htake, hdrop⟩ := span_digits (isDigit_decimal n) hr
  unfold parseDigits
  rw [htake, hdrop, if_neg (decimal_ne_nil n), digitsVal_decimal]

theorem parseNumber_printInt (i : ℤ) {r : List UInt8} (hr : NoDigit r) :
    parseNumber ((printInt i).bytes ++ r) = some ((i : ℚ), r) := by
  simp only [printInt]
  split
  · rename_i h
    have hi : -(i.natAbs : ℤ) = i := by omega
    simp only [List.cons_append, List.nil_append, parseNumber, if_true,
      parseDigits_decimal i.natAbs hr, Option.map_some, Option.some.injEq, Prod.mk.injEq, and_true]
    exact_mod_cast hi
  · rename_i h
    have hi : ((i.natAbs : ℤ) : ℚ) = i := by rw [show (i.natAbs : ℤ) = i by omega]
    obtain ⟨d, ds, hd⟩ := List.exists_cons_of_ne_nil (decimal_ne_nil i.natAbs)
    have h45 : d ≠ 45 := by
      rintro rfl
      have := decimal_digits i.natAbs 45 (by simp [hd])
      simp at this
    have hparse := parseDigits_decimal i.natAbs hr
    rw [hd] at hparse
    simp only [hd, List.nil_append, List.cons_append, parseNumber, if_neg h45] at hparse ⊢
    rw [hparse, Option.map_some, ← hi, Int.cast_natCast]

/-! ## Texts of numbers -/

theorem length_decimal_le {n k : ℕ} (hk : 0 < k) (h : n < 10 ^ k) : (decimal n).length ≤ k := by
  induction k generalizing n with
  | zero => exact absurd hk (Nat.lt_irrefl 0)
  | succ k ih =>
    rw [decimal]
    split
    · simp
    · rename_i hn
      have hk : 0 < k := by
        rcases Nat.eq_zero_or_pos k with rfl | hk
        · omega
        · exact hk
      have hlt : n / 10 < 10 ^ k := by
        rw [Nat.div_lt_iff_lt_mul (by decide)]
        rwa [pow_succ] at h
      have := ih hk hlt
      simp only [List.length_append, List.length_cons, List.length_nil]
      omega

theorem printInt_injective {i j : ℤ} (h : printInt i = printInt j) : i = j := by
  have hi := parseNumber_printInt i (r := []) (by simp [NoDigit])
  rw [h, parseNumber_printInt j (by simp [NoDigit])] at hi
  exact Int.cast_injective (congrArg Prod.fst (Option.some.inj hi)).symm

theorem strlen_printInt_le (i : ℤ) {k : ℕ} (hk : 0 < k) (h : i.natAbs < 10 ^ k) :
    (printInt i).strlen ≤ k + 1 := by
  have hdigits := length_decimal_le hk h
  unfold strlen printInt
  split <;> simp only [List.length_append, List.length_cons, List.length_nil] <;> omega

theorem printInt_bytes (i : ℤ) {b : UInt8} (hb : b ∈ (printInt i).bytes) : b.toNat ≤ 57 := by
  have hdigits := decimal_digits i.natAbs
  rcases List.mem_append.mp hb with hsign | hdigit
  · split at hsign
    · obtain rfl := List.mem_singleton.mp hsign
      decide
    · exact absurd hsign List.not_mem_nil
  · exact (hdigits b hdigit).2

/-! ## The parser inverts the printer -/

theorem stripWord_cons (word : String) {w b : UInt8} {ws : List UInt8}
    (hword : (lit word).bytes = w :: ws) (h : w ≠ b) (r : List UInt8) :
    stripWord word (b :: r) = none := by
  unfold stripWord
  rw [if_neg]
  simp [hword, h]

theorem parseScalar_number {b : UInt8} (h : b.toNat ≤ 57) (r : List UInt8) :
    parseScalar (b :: r) = (parseNumber (b :: r)).map fun p => (.number p.1, p.2) := by
  have hne : ∀ w : UInt8, 57 < w.toNat → w ≠ b := by
    rintro w hw rfl
    omega
  rw [parseScalar, stripWord_cons "null" rfl (hne _ (by decide)),
    stripWord_cons "true" rfl (hne _ (by decide)), stripWord_cons "false" rfl (hne _ (by decide))]

theorem printInt_head (i : ℤ) :
    ∃ b r, (printInt i).bytes = b :: r ∧ 45 ≤ b.toNat ∧ b.toNat ≤ 57 := by
  simp only [printInt]
  split
  · exact ⟨45, _, rfl, by decide, by decide⟩
  · obtain ⟨d, ds, hd⟩ := List.exists_cons_of_ne_nil (decimal_ne_nil i.natAbs)
    have := decimal_digits i.natAbs d (by simp [hd])
    exact ⟨d, ds, by simp [hd], by omega, this.2⟩

theorem printNumber_intCast (i : ℤ) : printNumber i = printInt i := by
  unfold printNumber
  rw [CJson.trunc_intCast, if_pos rfl]

theorem print_head {v : CJson} (hv : v.Plain) :
    ∃ b r, (print v).bytes = b :: r ∧ b ≠ 93 ∧ b ≠ 125 := by
  cases v with
  | null | raw s => simp [CJson.Plain] at hv
  | bool b => cases b <;> exact ⟨_, _, rfl, by decide, by decide⟩
  | number q =>
    obtain ⟨i, rfl⟩ := hv
    obtain ⟨b, r, hb, h45, h57⟩ := printInt_head i.toInt
    refine ⟨b, r, by rw [print, printNumber_intCast, hb], ?_, ?_⟩ <;>
    · rintro rfl
      simp at h57
  | string s => exact ⟨34, _, rfl, by decide, by decide⟩
  | array vs => exact ⟨91, _, rfl, by decide, by decide⟩
  | object ms => exact ⟨123, _, rfl, by decide, by decide⟩

theorem join_cons_cons (sep s t : CStr) (ss : List CStr) :
    join sep (s :: t :: ss) = s ++ (sep ++ join sep (t :: ss)) := by
  simp only [join_cons, List.foldr_cons, append_assoc]

def Inverts (v : CJson) : Prop := ∀ fuel r, (print v).strlen < fuel → NoDigit r →
  parseValue fuel ((print v).bytes ++ r) = some (v, r)

theorem noDigit_cons {b : UInt8} (h : isDigit b = false) (r : List UInt8) : NoDigit (b :: r) := by
  simpa [NoDigit] using h

theorem parseItems_print (v : CJson) (vs : List CJson) (hvs : ∀ w ∈ v :: vs, Inverts w) :
    ∀ fuel r, (join (lit ",") (printItems (v :: vs))).strlen + 1 < fuel →
      parseItems fuel ((join (lit ",") (printItems (v :: vs))).bytes ++ 93 :: r) =
        some (v :: vs, r) := by
  induction vs generalizing v with
  | nil =>
    intro fuel r hfuel
    obtain ⟨fuel, rfl⟩ : ∃ f, fuel = f + 1 := ⟨fuel - 1, by omega⟩
    simp only [printItems, join_cons, List.foldr_nil, append_empty] at hfuel ⊢
    rw [parseItems, hvs v (by simp) fuel _ (by omega) (noDigit_cons rfl _)]
    rfl
  | cons w ws ih =>
    intro fuel r hfuel
    obtain ⟨fuel, rfl⟩ : ∃ f, fuel = f + 1 := ⟨fuel - 1, by omega⟩
    have ih := ih w (fun u hu => hvs u (List.mem_cons_of_mem _ hu)) fuel r
    rw [printItems] at ih hfuel ⊢
    rw [printItems, join_cons_cons] at hfuel ⊢
    simp only [strlen_append, show (lit ",").strlen = 1 from rfl] at hfuel
    simp only [bytes_append, show (lit ",").bytes = [44] from rfl, List.append_assoc,
      List.cons_append, List.nil_append]
    rw [parseItems, hvs v (by simp) fuel _ (by omega) (noDigit_cons rfl _)]
    simp only [ih (by omega), Option.map_some]

theorem parseMembers_print (m : CStr × CJson) (ms : List (CStr × CJson))
    (hms : ∀ n ∈ m :: ms, Inverts n.2) :
    ∀ fuel r, (join (lit ",") (printMembers (m :: ms))).strlen + 1 < fuel →
      parseMembers fuel ((join (lit ",") (printMembers (m :: ms))).bytes ++ 125 :: r) =
        some (m :: ms, r) := by
  induction ms generalizing m with
  | nil =>
    intro fuel r hfuel
    obtain ⟨fuel, rfl⟩ : ∃ f, fuel = f + 1 := ⟨fuel - 1, by omega⟩
    simp only [printMembers, join_cons, List.foldr_nil, append_empty, strlen_append] at hfuel ⊢
    simp only [bytes_printString, bytes_append, List.cons_append, List.append_assoc, List.nil_append,
      show (lit ":").bytes = [58] from rfl]
    rw [parseMembers, unescape_escape]
    simp only [hms m (by simp) fuel (125 :: r) (by omega) (noDigit_cons rfl r), ofMem_bytes]
  | cons n ns ih =>
    intro fuel r hfuel
    obtain ⟨fuel, rfl⟩ : ∃ f, fuel = f + 1 := ⟨fuel - 1, by omega⟩
    have ih := ih n (fun u hu => hms u (List.mem_cons_of_mem _ hu)) fuel r
    rw [printMembers] at ih hfuel ⊢
    rw [printMembers, join_cons_cons] at hfuel ⊢
    simp only [strlen_append, show (lit ",").strlen = 1 from rfl] at hfuel
    simp only [bytes_printString, bytes_append, List.cons_append, List.append_assoc, List.nil_append,
      show (lit ":").bytes = [58] from rfl, show (lit ",").bytes = [44] from rfl] at ih ⊢
    rw [parseMembers, unescape_escape]
    simp only [hms m (by simp) fuel (44 :: _) (by omega) (noDigit_cons rfl _), ofMem_bytes]
    rw [ih (by omega)]
    rfl

theorem inverts_int (i : ℤ) : Inverts (.number i) := by
  intro fuel r hfuel hr
  obtain ⟨fuel, rfl⟩ : ∃ f, fuel = f + 1 := ⟨fuel - 1, by omega⟩
  obtain ⟨b, bs, hb, h45, h57⟩ := printInt_head i
  have hnum := parseNumber_printInt i hr
  unfold print at *
  rw [printNumber_intCast, hb, List.cons_append] at *
  have hne : ∀ w : UInt8, w.toNat < 45 ∨ 57 < w.toNat → b ≠ w := by
    rintro w hw rfl
    omega
  rw [parseValue, if_neg (hne _ (by decide)), if_neg (hne _ (by decide)),
    if_neg (hne _ (by decide)), parseScalar_number h57, hnum]
  rfl

theorem inverts_string (s : CStr) : Inverts (.string s) := by
  intro fuel r hfuel _
  obtain ⟨fuel, rfl⟩ : ∃ f, fuel = f + 1 := ⟨fuel - 1, by omega⟩
  simp only [print, printString, List.cons_append, List.append_assoc, List.nil_append]
  unfold parseValue
  rw [if_pos rfl, unescape_escape, Option.map_some, ofMem_bytes]

theorem inverts_object {ms : List (CStr × CJson)} (hms : ∀ m ∈ ms, Inverts m.2) :
    Inverts (.object ms) := by
  intro fuel r hfuel _
  obtain ⟨fuel, rfl⟩ : ∃ f, fuel = f + 1 := ⟨fuel - 1, by omega⟩
  simp only [print, bytes_append, strlen_append, List.append_assoc, List.cons_append,
    List.nil_append, show (lit "\x7b").bytes = [123] from rfl,
    show (lit "\x7d").bytes = [125] from rfl, show (lit "\x7b").strlen = 1 from rfl,
    show (lit "\x7d").strlen = 1 from rfl] at hfuel ⊢
  unfold parseValue
  rw [if_neg (by decide), if_neg (by decide), if_pos rfl]
  cases ms with
  | nil => rfl
  | cons m ms =>
    rw [if_neg (by simp [printMembers, join_cons, printString]),
      parseMembers_print m ms hms fuel r (by omega)]
    rfl

theorem parseValue_print (v : CJson) : v.Plain → Inverts v := by
  induction v using CJson.induct with
  | null | raw s => simp [CJson.Plain]
  | bool b =>
    intro _ fuel r hfuel _
    obtain ⟨fuel, rfl⟩ : ∃ f, fuel = f + 1 := ⟨fuel - 1, by omega⟩
    cases b <;> rfl
  | number q =>
    rintro ⟨i, rfl⟩
    exact inverts_int i.toInt
  | string s => exact fun _ => inverts_string s
  | array vs ih =>
    intro hv fuel r hfuel _
    rw [CJson.plain_array] at hv
    obtain ⟨fuel, rfl⟩ : ∃ f, fuel = f + 1 := ⟨fuel - 1, by omega⟩
    simp only [print, bytes_append, strlen_append, List.append_assoc, List.cons_append,
      List.nil_append, show (lit "[").bytes = [91] from rfl, show (lit "]").bytes = [93] from rfl,
      show (lit "[").strlen = 1 from rfl, show (lit "]").strlen = 1 from rfl] at hfuel ⊢
    unfold parseValue
    rw [if_neg (by decide), if_pos rfl]
    cases vs with
    | nil => rfl
    | cons v vs =>
      obtain ⟨b, bs, hb, hclose, -⟩ := print_head (hv v (by simp))
      rw [if_neg (by simp [printItems, join_cons, hb, hclose]),
        parseItems_print v vs (fun w hw => ih w hw (hv w hw)) fuel r (by omega)]
      rfl
  | object ms ih =>
    intro hv
    rw [CJson.plain_object] at hv
    exact inverts_object fun m hm => ih m hm (hv m hm)

theorem Inverts.parse_print {v : CJson} (h : Inverts v) : parse (print v) = some v := by
  have h := h ((print v).strlen + 1) [] (by omega) (by simp [NoDigit])
  rw [List.append_nil] at h
  unfold parse
  rw [h]
  rfl

/-- **Round trip.** Parsing what was printed gives the value back. -/
theorem parse_print {v : CJson} (hv : v.Plain) : parse (print v) = some v :=
  (parseValue_print v hv).parse_print

end MlinkDevice.Json
