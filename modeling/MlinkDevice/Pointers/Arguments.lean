import MlinkDevice.Copying
import MlinkDevice.Pointers.PropertyLists

/-!
# The arguments of a call with their pointers

The setters of `mcp_property.c` and `mcp_server_parse_arguments` over allocated blocks. A string
argument takes the place of the default, which is freed before, and it may find no memory.
-/

open MlinkDevice.CStr MlinkDevice.Sep MlinkDevice.Sep.Assertion

/-! ## Values when a string finds no memory -/

namespace MlinkDevice.Copying

def mcpPropertySetString (memory : Bool) (property : McpProperty) (value : Option CStr) :
    Bool × McpProperty :=
  match property.value with
  | .string _ =>
    let value := utilsStrdup memory (some (value.getD ∅))
    (value.isSome, { property with value := .string value, hasDefault := true })
  | _ => (false, property)

def mcpPropertyCopyFromJson (memory : Bool) (property : McpProperty) (json : CJson) :
    Bool × McpProperty :=
  match property.value, json with
  | .boolean _, .bool b => mcpPropertySetBool property b
  | .integer _, .number q => mcpPropertySetInt property (CJson.valueint q)
  | .string _, .string s => mcpPropertySetString memory property (some s)
  | _, _ => (false, property)

/-- The loop over the copied properties, where `memory i` is for the argument at index `i`. -/
def parseArgumentsLoop (memory : ℕ → Bool) (arguments : Option CJson) :
    ℕ → List McpProperty → Bool → Option CStr → ParsedArguments
  | _, [], ok, errorProperty => ⟨[], ok, errorProperty⟩
  | i, property :: rest, ok, errorProperty =>
    match argumentOf arguments property with
    | none =>
      let tail := if property.hasDefault then
          parseArgumentsLoop memory arguments (i + 1) rest ok errorProperty
        else parseArgumentsLoop memory arguments (i + 1) rest false property.name
      { tail with parsed := property :: tail.parsed }
    | some value =>
      match mcpPropertyCopyFromJson (memory i) property value with
      | (false, property') => ⟨property' :: rest, false, property'.name⟩
      | (true, property') =>
        let tail := parseArgumentsLoop memory arguments (i + 1) rest ok errorProperty
        { tail with parsed := property' :: tail.parsed }

theorem copyFromJson_memory (property : McpProperty) (json : CJson) :
    mcpPropertyCopyFromJson true property json = MlinkDevice.mcpPropertyCopyFromJson property json := by
  obtain ⟨name, value, hasDefault, hasMin, hasMax, minValue, maxValue⟩ := property
  cases value <;> cases json <;> rfl

theorem copyFromJson_ok {memory : Bool} {property : McpProperty} {json : CJson}
    (h : (mcpPropertyCopyFromJson memory property json).1 = true) :
    mcpPropertyCopyFromJson memory property json =
      MlinkDevice.mcpPropertyCopyFromJson property json := by
  cases memory with
  | true => exact copyFromJson_memory property json
  | false =>
    obtain ⟨name, value, hasDefault, hasMin, hasMax, minValue, maxValue⟩ := property
    cases value <;> cases json <;> first | rfl | exact absurd h Bool.false_ne_true

theorem copyFromJson_name (memory : Bool) (property : McpProperty) (json : CJson) :
    (mcpPropertyCopyFromJson memory property json).2.name = property.name := by
  obtain ⟨name, value, hasDefault, hasMin, hasMax, minValue, maxValue⟩ := property
  cases value <;> cases json <;> try rfl
  simp only [mcpPropertyCopyFromJson, mcpPropertySetInt]
  split_ifs <;> rfl

theorem parseLoop_congr {memory memory' : ℕ → Bool} {arguments : Option CJson}
    {ps : List McpProperty} {i : ℕ} {ok : Bool} {name : Option CStr}
    (h : ∀ j, i ≤ j → memory j = memory' j) :
    parseArgumentsLoop memory arguments i ps ok name =
      parseArgumentsLoop memory' arguments i ps ok name := by
  induction ps generalizing i ok name with
  | nil => rfl
  | cons p ps ih =>
    have hnext (ok : Bool) (name : Option CStr) :
        parseArgumentsLoop memory arguments (i + 1) ps ok name =
          parseArgumentsLoop memory' arguments (i + 1) ps ok name :=
      ih fun j hj => h j (by omega)
    simp only [parseArgumentsLoop, hnext, h i le_rfl]

theorem parseLoop_false (memory : ℕ → Bool) (arguments : Option CJson) (ps : List McpProperty)
    (i : ℕ) (name : Option CStr) :
    (parseArgumentsLoop memory arguments i ps false name).ok = false := by
  induction ps generalizing i name with
  | nil => rfl
  | cons p ps ih =>
    simp only [parseArgumentsLoop]
    split
    · split <;> exact ih ..
    · split
      · rfl
      · exact ih ..

theorem parseLoop_ok {memory : ℕ → Bool} {arguments : Option CJson} {ps : List McpProperty}
    {i : ℕ} {ok : Bool} {name : Option CStr}
    (h : (parseArgumentsLoop memory arguments i ps ok name).ok = true) :
    parseArgumentsLoop memory arguments i ps ok name =
      MlinkDevice.parseArgumentsLoop arguments ps ok name := by
  induction ps generalizing i ok name with
  | nil => rfl
  | cons p ps ih =>
    rw [MlinkDevice.parseArgumentsLoop, ← argumentOf]
    rw [parseArgumentsLoop] at h ⊢
    cases hvalue : argumentOf arguments p with
    | none =>
      rw [hvalue] at h
      cases hdefault : p.hasDefault with
      | true =>
        simp only [hdefault, if_true] at h ⊢
        rw [ih h]
      | false =>
        simp only [hdefault, Bool.false_eq_true, if_false] at h
        rw [parseLoop_false] at h
        exact Bool.noConfusion h
    | some value =>
      rw [hvalue] at h
      cases hcopied : mcpPropertyCopyFromJson (memory i) p value with
      | mk copied p' =>
        cases copied with
        | false =>
          simp only [hcopied] at h
          exact Bool.noConfusion h
        | true =>
          have hsame := copyFromJson_ok (congrArg Prod.fst hcopied)
          rw [hcopied] at hsame
          simp only [hcopied] at h
          simp only [hcopied, ← hsame, ih h]

end MlinkDevice.Copying

namespace MlinkDevice.Pointers

/-! ## The functions -/

def mcpPropertySetBool (property : Property) (value : Bool) : Bool × Property :=
  match property.value with
  | .boolean _ => (true, { property with value := .boolean value, hasDefault := true })
  | _ => (false, property)

def mcpPropertySetInt (property : Property) (value : Int32) : Bool × Property :=
  match property.value with
  | .integer _ =>
    if property.hasMin ∧ value < property.minValue then (false, property)
    else if property.hasMax ∧ property.maxValue < value then (false, property)
    else (true, { property with value := .integer value, hasDefault := true })
  | _ => (false, property)

def mcpPropertySetString (property : Property) (value : Option CStr) :
    Prog Block (Bool × Property) :=
  match property.value with
  | .string p => do
    free p
    let value ← utilsStrdup (some (value.getD ∅))
    return (value.isSome, { property with value := .string value, hasDefault := true })
  | _ => return (false, property)

def mcpPropertyCopyFromJson (property : Property) (json : CJson) : Prog Block (Bool × Property) :=
  match property.value, json with
  | .boolean _, .bool b => return mcpPropertySetBool property b
  | .integer _, .number q => return mcpPropertySetInt property (CJson.valueint q)
  | .string _, .string s => mcpPropertySetString property (some s)
  | _, _ => return (false, property)

/-- The loop of `mcp_server_parse_arguments`, from the item `i` on with `n` items left. The name
of the last bad property stays a pointer into its list. -/
def parseItems (arguments : Option CJson) (parsed : PropertyList) :
    ℕ → ℕ → Bool → Option Addr → Prog Block (Bool × Option Addr)
  | _, 0, ok, errorProperty => return (ok, errorProperty)
  | i, n + 1, ok, errorProperty => do
    let property ← getItem parsed i
    let name ← readString property.name
    match arguments.bind fun arguments => name.bind arguments.getObjectItem with
    | none =>
      if property.hasDefault then parseItems arguments parsed (i + 1) n ok errorProperty
      else parseItems arguments parsed (i + 1) n false property.name
    | some value => do
      let (copied, property) ← mcpPropertyCopyFromJson property value
      setItem parsed i property
      if copied then parseItems arguments parsed (i + 1) n ok errorProperty
      else return (false, property.name)

def mcpServerParseArguments (tool : Tool) (arguments : Option CJson) :
    Prog Block (PropertyList × Bool × Option Addr) := do
  let parsed ← mcpPropertyListClone tool.properties
  let result ← parseItems arguments parsed 0 parsed.count true none
  return (parsed, result)

/-! ## One property -/

theorem free_stringValue (hasDefault : Bool) (p : Option Addr) (s : Option CStr) :
    Triple (valueAt hasDefault (.string p) (.string s)) (free p) fun _ => 1 := by
  cases hasDefault with
  | true => exact free_stringAt p s
  | false =>
    refine Triple.of_fact fun hnone => ?_
    rw [hnone.1]
    exact free_none_triple 1

theorem stringAt_isSome (p : Option Addr) (s : Option CStr) :
    stringAt p s = fact (p.isSome = s.isSome) * stringAt p s := by
  cases p <;> cases s <;> simp [fact_of, stringAt, optionally]

theorem setItemInt_eq (property : McpProperty) {name : Option Addr} {j : Int32}
    {item : Property} (h : item = ⟨property.flags, name, .integer j⟩) (i : Int32) :
    mcpPropertySetInt item i = if inBounds property i then
      (true, { item with value := .integer i, hasDefault := true }) else (false, item) := by
  subst h
  unfold mcpPropertySetInt inBounds
  by_cases hmin : property.hasMin ∧ i < property.minValue
  · simp [McpProperty.flags, hmin]
  · by_cases hmax : property.hasMax ∧ property.maxValue < i
    · simp [McpProperty.flags, hmin, hmax]
    · simp only [McpProperty.flags, hmin, hmax, if_false, not_false_eq_true, and_self, decide_true,
        if_true]

theorem mcpPropertyCopyFromJson_triple (item : Property) (p : McpProperty) (json : CJson) :
    Triple (propertyAt item p) (mcpPropertyCopyFromJson item json) fun r => ⨆ memory,
      fact (r.1 = (Copying.mcpPropertyCopyFromJson memory p json).1 ∧ r.2.name = item.name) *
        propertyAt r.2 (Copying.mcpPropertyCopyFromJson memory p json).2 := by
  have hkept {p : McpProperty} {item : Property}
      (h : Copying.mcpPropertyCopyFromJson true p json = (false, p)) :
      propertyAt item p ≤ ⨆ memory,
        fact (false = (Copying.mcpPropertyCopyFromJson memory p json).1 ∧ item.name = item.name) *
          propertyAt item (Copying.mcpPropertyCopyFromJson memory p json).2 := by
    refine le_iSup_of_le true ?_
    rw [h, fact_of ⟨rfl, rfl⟩, one_mul]
  obtain ⟨flags, name, value⟩ := item
  obtain ⟨pname, pvalue, hasDefault, hasMin, hasMax, minValue, maxValue⟩ := p
  cases value with
  | boolean b =>
    cases pvalue with
    | boolean c =>
      cases json with
      | bool d =>
        refine Triple.fact_pre fun hflags => ?_
        obtain rfl : flags = _ := hflags
        refine Triple.ret _ (le_iSup_of_le true ?_)
        have hset : Copying.mcpPropertyCopyFromJson true
            ⟨pname, .boolean c, hasDefault, hasMin, hasMax, minValue, maxValue⟩ (.bool d) =
              (true, ⟨pname, .boolean d, true, hasMin, hasMax, minValue, maxValue⟩) := rfl
        rw [hset, mcpPropertySetBool, fact_of ⟨rfl, rfl⟩, one_mul, propertyAt_eq rfl]
        exact mul_le_mul_right ((fact_le _).trans (by rw [valueAt, fact_of rfl])) _
      | _ => exact Triple.ret _ (hkept rfl)
    | _ => exact triple_bot.pre (by simp [propertyAt, valueAt])
  | integer i =>
    cases pvalue with
    | integer j =>
      cases json with
      | number q =>
        refine Triple.fact_pre fun hflags => ?_
        obtain rfl : flags = _ := hflags
        refine Triple.ret _ (le_iSup_of_le true ?_)
        let property : McpProperty :=
          ⟨pname, .integer j, hasDefault, hasMin, hasMax, minValue, maxValue⟩
        let item : Property := ⟨property.flags, name, .integer i⟩
        change _ ≤ fact ((mcpPropertySetInt item (CJson.valueint q)).1 =
            (MlinkDevice.mcpPropertySetInt property (CJson.valueint q)).1 ∧
            (mcpPropertySetInt item (CJson.valueint q)).2.name = name) *
          propertyAt (mcpPropertySetInt item (CJson.valueint q)).2
            (MlinkDevice.mcpPropertySetInt property (CJson.valueint q)).2
        rw [setInt_eq rfl, setItemInt_eq property rfl]
        split
        · rw [fact_of ⟨rfl, rfl⟩, one_mul, propertyAt_eq rfl]
          exact mul_le_mul_right ((fact_le _).trans (by rw [valueAt, fact_of rfl])) _
        · rw [fact_of ⟨rfl, rfl⟩, one_mul, propertyAt_eq rfl]
      | _ => exact Triple.ret _ (hkept rfl)
    | _ => exact triple_bot.pre (by simp [propertyAt, valueAt])
  | string q =>
    cases pvalue with
    | string s =>
      cases json with
      | string t =>
        refine Triple.fact_pre fun hflags => ?_
        obtain rfl : flags = _ := hflags
        refine Triple.call (free_stringValue hasDefault q s) (stringAt name pname)
          (mul_comm _ _) fun _ => ?_
        rw [one_mul]
        refine Triple.call (utilsStrdup_triple (some t)) _ (one_mul _).symm fun value => ?_
        rw [Quantale.iSup_mul_distrib]
        refine Triple.exists_pre fun memory => ?_
        have hset : Copying.mcpPropertyCopyFromJson memory
            ⟨pname, .string s, hasDefault, hasMin, hasMax, minValue, maxValue⟩ (.string t) =
              ((Copying.utilsStrdup memory (some t)).isSome,
                ⟨pname, .string (Copying.utilsStrdup memory (some t)), true, hasMin, hasMax,
                  minValue, maxValue⟩) := rfl
        rw [stringAt_isSome, mul_assoc]
        refine Triple.fact_pre fun hvalue => ?_
        refine Triple.ret _ (le_iSup_of_le memory ?_)
        rw [hset, fact_of ⟨hvalue, rfl⟩, one_mul, propertyAt_eq rfl, mul_comm]
        exact le_rfl
      | _ => exact Triple.ret _ (hkept rfl)
    | _ => exact triple_bot.pre (by simp [propertyAt, valueAt])

/-! ## The loop -/

theorem itemsAt_focus {items : List Property} {ps : List McpProperty} {i : ℕ} {item : Property}
    {p : McpProperty} (hitem : items[i]? = some item) (hp : ps[i]? = some p) :
    ∃ K, itemsAt items ps = propertyAt item p * K ∧ ∀ item' p',
      itemsAt (items.set i item') (ps.set i p') = propertyAt item' p' * K := by
  induction i generalizing items ps with
  | zero =>
    cases items with
    | nil => simp at hitem
    | cons first items =>
      cases ps with
      | nil => simp at hp
      | cons q ps =>
        obtain rfl : first = item := by simpa using hitem
        obtain rfl : q = p := by simpa using hp
        exact ⟨itemsAt items ps, rfl, fun _ _ => rfl⟩
  | succ i ih =>
    cases items with
    | nil => simp at hitem
    | cons first items =>
      cases ps with
      | nil => simp at hp
      | cons q ps =>
        obtain ⟨K, hsame, hset⟩ := @ih items ps hitem hp
        refine ⟨propertyAt first q * K, ?_, fun item' p' => ?_⟩
        · rw [itemsAt, hsame, mul_left_comm]
        · rw [List.set_cons_succ, List.set_cons_succ, itemsAt, hset, mul_left_comm]

/-- The pointer is to the name of one of the properties, or neither is there. -/
def NameOf (pointer : Option Addr) (items : List Property) (ps : List McpProperty)
    (name : Option CStr) : Prop :=
  (pointer = none ∧ name = none) ∨ ∃ (i : ℕ) (item : Property) (p : McpProperty),
    items[i]? = some item ∧ ps[i]? = some p ∧ pointer = item.name ∧ name = p.name

theorem NameOf.set {pointer : Option Addr} {items : List Property} {ps : List McpProperty}
    {name : Option CStr} (h : NameOf pointer items ps name) {i : ℕ} {item item' : Property}
    {p p' : McpProperty} (hitem : items[i]? = some item) (hp : ps[i]? = some p)
    (hpointer : item'.name = item.name) (hname : p'.name = p.name) :
    NameOf pointer (items.set i item') (ps.set i p') name := by
  rcases h with hnone | ⟨j, other, q, hother, hq, hpointer', hname'⟩
  · exact .inl hnone
  · by_cases hij : i = j
    · subst hij
      obtain rfl : item = other := Option.some.inj (hitem.symm.trans hother)
      obtain rfl : p = q := Option.some.inj (hp.symm.trans hq)
      refine .inr ⟨i, item', p', ?_, ?_, hpointer'.trans hpointer.symm, hname'.trans hname.symm⟩
      · rw [List.getElem?_set_self (List.getElem?_eq_some_iff.mp hitem).1]
      · rw [List.getElem?_set_self (List.getElem?_eq_some_iff.mp hp).1]
    · refine .inr ⟨j, other, q, ?_, ?_, hpointer', hname'⟩
      · rwa [List.getElem?_set_ne hij]
      · rwa [List.getElem?_set_ne hij]

theorem NameOf.owned {pointer : Option Addr} {items : List Property} {ps : List McpProperty}
    {name : Option CStr} (h : NameOf pointer items ps name) :
    ∃ K, itemsAt items ps = stringAt pointer name * K := by
  rcases h with ⟨rfl, rfl⟩ | ⟨i, item, p, hitem, hp, rfl, rfl⟩
  · exact ⟨_, (one_mul _).symm⟩
  · obtain ⟨K, hsame, -⟩ := itemsAt_focus hitem hp
    refine ⟨fact (item.toFlags = p.flags) * valueAt p.hasDefault item.value p.value * K, ?_⟩
    rw [hsame, propertyAt]
    ac_rfl

/-- What is left of a list whose loop has ended like `v`, with the properties before it. -/
def parsedAt (list : PropertyList) (done : List McpProperty) (v : ParsedArguments)
    (r : Bool × Option Addr) : Assertion Block :=
  ⨆ items, fact (r.1 = v.ok ∧ NameOf r.2 items (done ++ v.parsed) v.errorProperty) *
    (arrayAt list items * itemsAt items (done ++ v.parsed))

/-- What a loop parses with one property before it. -/
def parsedCons (p : McpProperty) (v : ParsedArguments) : ParsedArguments :=
  { v with parsed := p :: v.parsed }

theorem parsedAt_cons (list : PropertyList) (done : List McpProperty) (p : McpProperty)
    (v : ParsedArguments) (r : Bool × Option Addr) :
    parsedAt list (done ++ [p]) v r = parsedAt list done (parsedCons p v) r := by
  simp only [parsedAt, parsedCons, List.append_assoc, List.singleton_append]

/-- **Run.** From the item `i` on, the loop parses what the one on values parses, and the name
that it reports is still in the list. -/
theorem parseItems_triple (arguments : Option CJson) (list : PropertyList) (items : List Property)
    (done rest : List McpProperty) (ok : Bool) (pointer : Option Addr) (name : Option CStr)
    (hname : NameOf pointer items (done ++ rest) name) :
    Triple (arrayAt list items * itemsAt items (done ++ rest))
      (parseItems arguments list done.length rest.length ok pointer) fun r => ⨆ memory,
        parsedAt list done
          (Copying.parseArgumentsLoop memory arguments done.length rest ok name) r := by
  induction rest generalizing items done ok pointer name with
  | nil =>
    refine Triple.ret _ (le_iSup_of_le (fun _ => true) (le_iSup_of_le items ?_))
    rw [fact_of ⟨rfl, hname⟩, one_mul]
    exact le_rfl
  | cons p rest ih =>
    refine exists_items fun hlength => ?_
    have hp : (done ++ p :: rest)[done.length]? = some p := by simp
    have hset (p' : McpProperty) :
        (done ++ p :: rest).set done.length p' = done ++ p' :: rest := by simp
    have hi : done.length < items.length := by simp [hlength]
    obtain ⟨item, hitem⟩ : ∃ item, items[done.length]? = some item :=
      ⟨_, List.getElem?_eq_getElem hi⟩
    obtain ⟨K, hsame, hother⟩ := itemsAt_focus hitem hp
    have hnext (items : List Property) (p : McpProperty) (ok : Bool) (pointer : Option Addr)
        (name : Option CStr) (hname : NameOf pointer items (done ++ p :: rest) name) :
        Triple (arrayAt list items * itemsAt items (done ++ p :: rest))
          (parseItems arguments list (done.length + 1) rest.length ok pointer) fun r => ⨆ memory,
            parsedAt list done (parsedCons p
              (Copying.parseArgumentsLoop memory arguments (done.length + 1) rest ok name)) r := by
      have hrun := ih items (done ++ [p]) ok pointer name (by simpa using hname)
      simpa only [parsedAt_cons, List.append_assoc, List.singleton_append, List.length_append,
        List.length_singleton] using hrun
    refine Triple.call (getItem_triple hitem) _ rfl fun got => ?_
    rw [mul_assoc]
    refine Triple.fact_pre fun hgot => ?_
    subst hgot
    rw [hsame, propertyAt, mul_assoc, mul_left_comm]
    refine Triple.fact_pre fun hflags => ?_
    refine Triple.call (readString_triple got.name p.name) (arrayAt list items *
      (valueAt p.hasDefault got.value p.value * K)) (by ac_rfl) fun read => ?_
    rw [mul_assoc]
    refine Triple.fact_pre fun hread => ?_
    subst hread
    have howned : stringAt got.name p.name * (arrayAt list items *
        (valueAt p.hasDefault got.value p.value * K)) =
          arrayAt list items * itemsAt items (done ++ p :: rest) := by
      rw [hsame, propertyAt_eq hflags]
      ac_rfl
    rw [howned, ← argumentOf]
    cases hvalue : argumentOf arguments p with
    | none =>
      have hdefault : got.hasDefault = p.hasDefault := congrArg Flags.hasDefault hflags
      cases hhas : p.hasDefault with
      | true =>
        simp only [hdefault, hhas, if_true]
        refine (hnext items p ok pointer name hname).post fun r => iSup_mono fun memory => ?_
        simp only [Copying.parseArgumentsLoop, hvalue, hhas, if_true]
        exact le_rfl
      | false =>
        simp only [hdefault, hhas, Bool.false_eq_true, if_false]
        refine (hnext items p false got.name p.name (.inr ⟨done.length, got, p, hitem, hp, rfl,
          rfl⟩)).post fun r => iSup_mono fun memory => ?_
        simp only [Copying.parseArgumentsLoop, hvalue, hhas, Bool.false_eq_true, if_false]
        exact le_rfl
    | some value =>
      refine Triple.call (mcpPropertyCopyFromJson_triple got p value) (arrayAt list items * K)
        (by rw [hsame]; ac_rfl) fun copied => ?_
      rw [Quantale.iSup_mul_distrib]
      refine Triple.exists_pre fun copying => ?_
      rw [mul_assoc]
      refine Triple.fact_pre fun hcopied => ?_
      obtain ⟨ok', got'⟩ := copied
      obtain ⟨hok, hpointer⟩ := hcopied
      have hpname := Copying.copyFromJson_name copying p value
      have hloop (memory : ℕ → Bool) (hfirst : memory done.length = copying) :
          Copying.parseArgumentsLoop memory arguments done.length (p :: rest) ok name =
            if ok' then
              parsedCons (Copying.mcpPropertyCopyFromJson copying p value).2
                (Copying.parseArgumentsLoop memory arguments (done.length + 1) rest ok name)
            else ⟨(Copying.mcpPropertyCopyFromJson copying p value).2 :: rest, false,
              (Copying.mcpPropertyCopyFromJson copying p value).2.name⟩ := by
        obtain rfl : ok' = _ := hok
        simp only [Copying.parseArgumentsLoop, hvalue, hfirst]
        generalize Copying.mcpPropertyCopyFromJson copying p value = made
        obtain ⟨ok, p'⟩ := made
        cases ok <;> rfl
      generalize (Copying.mcpPropertyCopyFromJson copying p value).2 = p' at hpname hloop ⊢
      refine Triple.call (setItem_triple hi got') (propertyAt got' p' * K) (by ac_rfl) fun _ => ?_
      rw [← hother, hset]
      have hat : (items.set done.length got')[done.length]? = some got' := by
        rw [List.getElem?_set_self hi]
      cases ok' with
      | false =>
        refine Triple.ret _ (le_iSup_of_le (fun _ => copying)
          (le_iSup_of_le (items.set done.length got') ?_))
        rw [hloop _ rfl, if_neg Bool.false_ne_true, fact_of ⟨rfl, .inr ⟨done.length, got', p', hat,
          by simp, rfl, rfl⟩⟩, one_mul]
      | true =>
        refine (hnext (items.set _ got') p' ok pointer name ?_).post fun r =>
          iSup_le fun memory => ?_
        · rw [← hset]
          exact hname.set hitem hp hpointer hpname
        · refine le_iSup_of_le (Function.update memory done.length copying) ?_
          rw [hloop _ (Function.update_self ..), if_pos rfl]
          refine le_of_eq (congrArg (fun v => parsedAt list done (parsedCons p' v) r) ?_)
          refine (Copying.parseLoop_congr fun j hj => ?_).symm
          exact Function.update_of_ne (by omega) ..

/-- What can become of a call's arguments for a tool with these properties. -/
def argumentsAt (arguments : Option CJson) (l : Copying.PropertyList)
    (r : PropertyList × Bool × Option Addr) : Assertion Block :=
  ⨆ copies, ⨆ memory, parsedAt r.1 [] (Copying.parseArgumentsLoop memory arguments 0
    (Copying.mcpPropertyListClone copies l.items) true none) r.2

theorem mcpServerParseArguments_triple (tool : Tool) (l : Copying.PropertyList)
    (arguments : Option CJson) :
    Triple (listAt tool.properties l) (mcpServerParseArguments tool arguments) fun r =>
      listAt tool.properties l * argumentsAt arguments l r := by
  refine Triple.bind (mcpPropertyListClone_triple tool.properties l) fun parsed => ?_
  refine Triple.exists_pre fun copies => exists_list fun items hcapacity hcount hlength => ?_
  have hloop := parseItems_triple arguments parsed items []
    (Copying.mcpPropertyListClone copies l.items) true none none (.inl ⟨rfl, rfl⟩)
  rw [show (Copying.mcpPropertyListClone copies l.items).length = parsed.count from
    hlength.symm.trans hcount] at hloop
  refine Triple.call hloop (listAt tool.properties l) (mul_comm _ _) fun result => ?_
  refine Triple.ret (parsed, result) ?_
  rw [mul_comm]
  refine mul_le_mul_right ?_ _
  unfold argumentsAt
  exact le_iSup_of_le copies le_rfl

end MlinkDevice.Pointers
