import MlinkDevice.Slots
import MlinkDevice.Transport

/-!
# The transport table

`transport.c`: the table of registered transports as an array and a count, for any types and
any operations. Entries past the count are left over from removed registrations.
-/

namespace MlinkDevice.Registry

variable {τ α H : Type}

/-! ## The functions -/

/-- `struct transport_registry`, where no operations are `NULL`. -/
structure Entry (τ α : Type) where
  type : τ
  ops : Option α

/-- `transport_table` and `transport_table_count`. -/
structure Table (τ α : Type) where
  entries : List (Entry τ α)
  count : ℕ

/-- `struct transport`, with the context that the backend keeps in it. -/
structure Transport (α H : Type) where
  name : String
  ops : α
  hw : H

/-- The table before any call, where `zero` is the type with the value 0. -/
def Table.initial (zero : τ) : Table τ α where
  entries := List.replicate maxTransportRegistrations ⟨zero, none⟩
  count := 0

/-- The entries in use. -/
def Table.inUse (t : Table τ α) : List (Entry τ α) := t.entries.take t.count

section Code

variable [DecidableEq τ]

def transportRegister (t : Table τ α) (type : τ) (ops : Option α) : Int32 × Table τ α :=
  if ops.isNone then (-1, t)
  else match t.inUse.findIdx? (·.type = type) with
    | some i => (0, { t with entries := t.entries.modify i fun entry => { entry with ops } })
    | none =>
      if maxTransportRegistrations ≤ t.count then (-1, t)
      else (0, { entries := t.entries.set t.count ⟨type, ops⟩, count := t.count + 1 })

def transportUnregister (t : Table τ α) (type : τ) : Int32 × Table τ α :=
  match t.inUse.findIdx? (·.type = type) with
  | some i => (0, { entries := Slots.shiftDown (t.count - 1 - i) i t.entries, count := t.count - 1 })
  | none => (-1, t)

/-- The operations that `transport_create` takes from the table. -/
def transportOps (t : Table τ α) (type : τ) : Option α :=
  (t.inUse.find? (·.type = type)).bind (·.ops)

/-- The rest of `transport_create`, where `init` is that of the operations if they have one. -/
def transportStart (name : String) (init : α → Option (H → Int32 × H)) (zero : H) (ops : α) :
    Option (Transport α H) :=
  match init ops with
  | none => some ⟨name, ops, zero⟩
  | some start =>
    let started := start zero
    if started.1 ≠ 0 then none else some ⟨name, ops, started.2⟩

/-- `transport_create`, where `memory` is whether its allocation succeeds. -/
def transportCreate (t : Table τ α) (type : τ) (name : String) (memory : Bool)
    (init : α → Option (H → Int32 × H)) (zero : H) : Option (Transport α H) :=
  if memory then (transportOps t type).bind (transportStart name init zero) else none

end Code

/-! ## What the functions do to the entries in use -/

def Table.types (t : Table τ α) : List τ := t.inUse.map (·.type)

structure Table.Valid (t : Table τ α) : Prop where
  length : t.entries.length = maxTransportRegistrations
  count_le : t.count ≤ maxTransportRegistrations
  nodup : t.types.Nodup

theorem Table.Valid.length_inUse {t : Table τ α} (h : t.Valid) : t.inUse.length = t.count :=
  List.length_take_of_le (h.length ▸ h.count_le)

theorem Table.Valid.length_types {t : Table τ α} (h : t.Valid) : t.types.length = t.count :=
  (List.length_map _).trans h.length_inUse

theorem Table.initial_valid (zero : τ) : (Table.initial zero : Table τ α).Valid where
  length := List.length_replicate
  count_le := Nat.zero_le _
  nodup := List.nodup_nil

section Functions

variable [DecidableEq τ] {t : Table τ α} {type : τ}

theorem findIdx?_eq_none : t.inUse.findIdx? (·.type = type) = none ↔ type ∉ t.types := by
  rw [List.findIdx?_eq_none_iff]
  simp [Table.types]

theorem exists_findIdx? (h : type ∈ t.types) :
    ∃ i, t.inUse.findIdx? (·.type = type) = some i :=
  Option.ne_none_iff_exists'.mp fun hnone => findIdx?_eq_none.mp hnone h

theorem transportRegister_present (h : t.Valid) (hmem : type ∈ t.types) (ops : α) :
    ∃ t', transportRegister t type (some ops) = (0, t') ∧ t'.Valid ∧ t'.types = t.types ∧
      t'.inUse = t.inUse.map fun e => if e.type = type then { e with ops := some ops } else e := by
  obtain ⟨i, hi⟩ := exists_findIdx? hmem
  simp only [transportRegister, hi, Option.isNone_some, Bool.false_eq_true, if_false]
  have hinUse : (t.entries.modify i fun entry => { entry with ops := some ops }).take t.count =
      t.inUse.map fun e => if e.type = type then { e with ops := some ops } else e := by
    rw [List.take_modify]
    exact Slots.modify_findIdx? h.nodup hi _
  have htypes : (t.inUse.map fun e => if e.type = type then { e with ops := some ops } else e).map
      (·.type) = t.types := by
    rw [List.map_map]
    refine List.map_congr_left fun e _ => ?_
    rw [Function.comp_apply]
    split <;> rfl
  rw [← hinUse] at htypes
  have hnodup := (congrArg List.Nodup htypes).mpr h.nodup
  exact ⟨_, rfl, ⟨(List.length_modify ..).trans h.length, h.count_le, hnodup⟩, htypes, hinUse⟩

theorem transportRegister_absent (h : t.Valid) (hmem : type ∉ t.types)
    (hroom : t.count < maxTransportRegistrations) (ops : α) :
    ∃ t', transportRegister t type (some ops) = (0, t') ∧ t'.Valid ∧
      t'.inUse = t.inUse ++ [⟨type, some ops⟩] := by
  simp only [transportRegister, findIdx?_eq_none.mpr hmem, Option.isNone_some, Bool.false_eq_true,
    if_false, if_neg (Nat.not_le_of_lt hroom)]
  have hinUse := Slots.take_push (h.length ▸ hroom) (⟨type, some ops⟩ : Entry τ α)
  refine ⟨_, rfl, ⟨List.length_set.trans h.length, hroom, ?_⟩, hinUse⟩
  rw [Table.types, Table.inUse, hinUse, List.map_append, List.nodup_append]
  refine ⟨h.nodup, List.nodup_singleton type, fun a ha b hb => ?_⟩
  obtain rfl : b = type := by simpa using hb
  rintro rfl
  exact hmem ha

theorem transportRegister_refused (hmem : type ∉ t.types)
    (hfull : t.count = maxTransportRegistrations) (ops : Option α) :
    transportRegister t type ops = (-1, t) := by
  simp only [transportRegister, findIdx?_eq_none.mpr hmem, hfull, Nat.le_refl, if_true, ite_self]

theorem transportUnregister_present (h : t.Valid) (hmem : type ∈ t.types) :
    ∃ t', transportUnregister t type = (0, t') ∧ t'.Valid ∧
      t'.inUse = t.inUse.filter (·.type ≠ type) := by
  obtain ⟨i, hi⟩ := exists_findIdx? hmem
  have hlt : i < t.count := by
    have hlt := (List.findIdx?_eq_some_iff_getElem.mp hi).1
    rwa [h.length_inUse] at hlt
  have hinUse : (Slots.shiftDown (t.count - 1 - i) i t.entries).take (t.count - 1) =
      t.inUse.filter (·.type ≠ type) :=
    (Slots.take_shiftDown hlt (h.length ▸ h.count_le)).trans (Slots.eraseIdx_findIdx? h.nodup hi)
  simp only [transportUnregister, hi]
  refine ⟨_, rfl, ⟨(Slots.length_shiftDown ..).trans h.length,
    Nat.le_trans (Nat.sub_le _ _) h.count_le, ?_⟩, hinUse⟩
  rw [Table.types, Table.inUse, hinUse]
  exact h.nodup.sublist (List.filter_sublist.map _)

theorem transportUnregister_absent (hmem : type ∉ t.types) :
    transportUnregister t type = (-1, t) := by
  simp only [transportUnregister, findIdx?_eq_none.mpr hmem]

end Functions

/-! ## The calls so far -/

inductive Call (τ α : Type) where
  | register (type : τ) (ops : α)
  | unregister (type : τ)

/-- The table after some calls, and these with their results, the last one first. -/
structure Calls (τ α : Type) where
  table : Table τ α
  log : List (Call τ α × Int32) := []

variable [DecidableEq τ]

def Call.run (t : Table τ α) : Call τ α → Int32 × Table τ α
  | .register type ops => transportRegister t type (some ops)
  | .unregister type => transportUnregister t type

def Calls.call (s : Calls τ α) (c : Call τ α) : Calls τ α :=
  let ran := c.run s.table
  { table := ran.2, log := (c, ran.1) :: s.log }

def Calls.all (zero : τ) (calls : List (Call τ α)) : Calls τ α :=
  calls.foldl Calls.call { table := .initial zero }

/-- The operations that were registered last for the type and not unregistered since. -/
def currentOps (type : τ) : List (Call τ α × Int32) → Option α
  | [] => none
  | (.register type' ops, result) :: earlier =>
    if type' = type ∧ result = 0 then some ops else currentOps type earlier
  | (.unregister type', _) :: earlier => if type' = type then none else currentOps type earlier

/-- When the type was registered first since it was removed last. -/
def registeredAt (type : τ) : List (Call τ α × Int32) → Option ℕ
  | [] => none
  | (.register type' _, result) :: earlier =>
    if type' = type ∧ result = 0 then some ((registeredAt type earlier).getD earlier.length)
    else registeredAt type earlier
  | (.unregister type', _) :: earlier => if type' = type then none else registeredAt type earlier

theorem registeredAt_lt {type : τ} {log : List (Call τ α × Int32)} {i : ℕ}
    (h : registeredAt type log = some i) : i < log.length := by
  induction log generalizing i with
  | nil => exact absurd h.symm (Option.some_ne_none i)
  | cons entry earlier ih =>
    have hearlier (j : ℕ) (hj : registeredAt type earlier = some j) :
        j < (entry :: earlier).length := Nat.lt_succ_of_lt (ih hj)
    obtain ⟨c, result⟩ := entry
    cases c with
    | register type' ops =>
      rw [registeredAt] at h
      split_ifs at h with hif
      · obtain rfl := Option.some.inj h
        cases hat : registeredAt type earlier with
        | none => exact Nat.lt_succ_self _
        | some j => exact hearlier j hat
      · exact hearlier i h
    | unregister type' =>
      rw [registeredAt] at h
      split_ifs at h
      exact hearlier i h

/-! ## The invariant -/

/-- One type was registered before the other, and both still are. -/
def Before (log : List (Call τ α × Int32)) (a b : τ) : Prop :=
  ∃ i j, registeredAt a log = some i ∧ registeredAt b log = some j ∧ i < j

theorem pairwise_before_congr {types : List τ} {log log' : List (Call τ α × Int32)}
    (h : types.Pairwise (Before log))
    (hsame : ∀ type ∈ types, registeredAt type log' = registeredAt type log) :
    types.Pairwise (Before log') :=
  h.imp_of_mem fun ha hb ⟨i, j, hi, hj, hlt⟩ =>
    ⟨i, j, (hsame _ ha).trans hi, (hsame _ hb).trans hj, hlt⟩

/-- The entries in use are the types that are registered, in order, with their operations. -/
structure Calls.Holds (s : Calls τ α) : Prop where
  valid : s.table.Valid
  ops : ∀ e ∈ s.table.inUse, e.ops = currentOps e.type s.log
  current : ∀ type, (currentOps type s.log).isSome ↔ type ∈ s.table.types
  registered : ∀ type, (registeredAt type s.log).isSome ↔ type ∈ s.table.types
  order : s.table.types.Pairwise (Before s.log)

theorem Calls.initial_holds (zero : τ) : ({ table := .initial zero } : Calls τ α).Holds where
  valid := Table.initial_valid zero
  ops _ h := absurd h List.not_mem_nil
  current _ := iff_of_false Bool.false_ne_true List.not_mem_nil
  registered _ := iff_of_false Bool.false_ne_true List.not_mem_nil
  order := List.Pairwise.nil

theorem currentOps_registered (type other : τ) (ops : α) (log : List (Call τ α × Int32)) :
    currentOps other ((.register type ops, 0) :: log) =
      if type = other then some ops else currentOps other log := by
  simp [currentOps]

theorem Calls.Holds.transportOps {s : Calls τ α} (h : s.Holds) (type : τ) :
    transportOps s.table type = currentOps type s.log := by
  rw [Registry.transportOps]
  cases hfind : s.table.inUse.find? (·.type = type) with
  | some e =>
    have htype : e.type = type := by simpa using List.find?_some hfind
    rw [Option.bind_some, h.ops e (List.mem_of_find?_eq_some hfind), htype]
  | none =>
    have habsent : type ∉ s.table.types := by
      rw [Table.types, List.mem_map]
      rintro ⟨e, he, htype⟩
      exact List.find?_eq_none.mp hfind e he (decide_eq_true htype)
    rw [Option.bind_none]
    exact (Option.not_isSome_iff_eq_none.mp fun hsome => habsent ((h.current type).mp hsome)).symm

theorem Calls.Holds.exists_ops {s : Calls τ α} (h : s.Holds) {e : Entry τ α}
    (he : e ∈ s.table.inUse) : ∃ ops, e.ops = some ops := by
  refine Option.isSome_iff_exists.mp ?_
  rw [h.ops e he, h.current]
  exact List.mem_map_of_mem he

/-! ## Steps -/

section Steps

variable {s : Calls τ α} {type : τ}

theorem Calls.Holds.register_present (h : s.Holds) (hmem : type ∈ s.table.types) (ops : α) :
    (s.call (.register type ops)).Holds := by
  obtain ⟨t, ht, hvalid, htypes, hinUse⟩ := transportRegister_present h.valid hmem ops
  have hcall : s.call (.register type ops) = ⟨t, (.register type ops, 0) :: s.log⟩ := by
    simp only [Calls.call, Call.run, ht]
  have hregistered (other : τ) : registeredAt other ((.register type ops, 0) :: s.log) =
      registeredAt other s.log := by
    by_cases hother : type = other
    · subst hother
      obtain ⟨i, hi⟩ := Option.isSome_iff_exists.mp ((h.registered type).mpr hmem)
      simp [registeredAt, hi]
    · simp [registeredAt, hother]
  rw [hcall]
  refine ⟨hvalid, fun e he => ?_, fun other => ?_, fun other => ?_, ?_⟩
  · rw [hinUse] at he
    obtain ⟨old, hold, rfl⟩ := List.mem_map.mp he
    rw [currentOps_registered]
    by_cases htype : old.type = type
    · simp [htype]
    · simp [htype, Ne.symm htype, h.ops old hold]
  · rw [currentOps_registered, htypes]
    split_ifs with hother
    · exact iff_of_true rfl (hother ▸ hmem)
    · exact h.current other
  · rw [hregistered, htypes]
    exact h.registered other
  · rw [htypes]
    exact pairwise_before_congr h.order fun other _ => hregistered other

theorem Calls.Holds.register_absent (h : s.Holds) (hmem : type ∉ s.table.types)
    (hroom : s.table.count < maxTransportRegistrations) (ops : α) :
    (s.call (.register type ops)).Holds := by
  obtain ⟨t, ht, hvalid, hinUse⟩ := transportRegister_absent h.valid hmem hroom ops
  have hcall : s.call (.register type ops) = ⟨t, (.register type ops, 0) :: s.log⟩ := by
    simp only [Calls.call, Call.run, ht]
  have htypes : t.types = s.table.types ++ [type] := by
    rw [Table.types, hinUse, List.map_append]
    rfl
  have hnone : registeredAt type s.log = none :=
    Option.not_isSome_iff_eq_none.mp fun hsome => hmem ((h.registered type).mp hsome)
  have hregistered (other : τ) : registeredAt other ((.register type ops, 0) :: s.log) =
      if type = other then some s.log.length else registeredAt other s.log := by
    by_cases hother : type = other
    · subst hother
      simp [registeredAt, hnone]
    · simp [registeredAt, hother]
  have hstays (other : τ) (hother : other ∈ s.table.types) :
      registeredAt other ((.register type ops, 0) :: s.log) = registeredAt other s.log := by
    rw [hregistered, if_neg]
    rintro rfl
    exact hmem hother
  rw [hcall]
  refine ⟨hvalid, fun e he => ?_, fun other => ?_, fun other => ?_, ?_⟩
  · rw [hinUse] at he
    rw [currentOps_registered]
    rcases List.mem_append.mp he with hold | hnew
    · rw [if_neg, h.ops e hold]
      rintro rfl
      exact hmem (List.mem_map_of_mem hold)
    · obtain rfl := List.mem_singleton.mp hnew
      rw [if_pos rfl]
  · rw [currentOps_registered, htypes, List.mem_append, List.mem_singleton]
    split_ifs with hother
    · exact iff_of_true rfl (.inr hother.symm)
    · rw [h.current other]
      exact (or_iff_left (Ne.symm hother)).symm
  · rw [hregistered, htypes, List.mem_append, List.mem_singleton]
    split_ifs with hother
    · exact iff_of_true rfl (.inr hother.symm)
    · rw [h.registered other]
      exact (or_iff_left (Ne.symm hother)).symm
  · rw [htypes, List.pairwise_append]
    refine ⟨pairwise_before_congr h.order hstays, List.pairwise_singleton _ _, fun a ha b hb => ?_⟩
    obtain rfl := List.mem_singleton.mp hb
    obtain ⟨i, hi⟩ := Option.isSome_iff_exists.mp ((h.registered a).mpr ha)
    exact ⟨i, s.log.length, (hstays a ha).trans hi, by rw [hregistered, if_pos rfl],
      registeredAt_lt hi⟩

theorem Calls.Holds.unregister_present (h : s.Holds) (hmem : type ∈ s.table.types) :
    (s.call (.unregister type)).Holds := by
  obtain ⟨t, ht, hvalid, hinUse⟩ := transportUnregister_present h.valid hmem
  have hcall : s.call (.unregister type) = ⟨t, (.unregister type, 0) :: s.log⟩ := by
    simp only [Calls.call, Call.run, ht]
  have hmem' (other : τ) : other ∈ t.types ↔ other ∈ s.table.types ∧ other ≠ type := by
    simp only [Table.types, hinUse, List.mem_map, List.mem_filter, decide_eq_true_eq]
    constructor
    · rintro ⟨e, ⟨he, hne⟩, rfl⟩
      exact ⟨⟨e, he, rfl⟩, hne⟩
    · rintro ⟨⟨e, he, rfl⟩, hne⟩
      exact ⟨e, ⟨he, hne⟩, rfl⟩
  have hstays (other : τ) (hne : other ≠ type) :
      registeredAt other ((.unregister type, 0) :: s.log) = registeredAt other s.log := by
    rw [registeredAt, if_neg hne.symm]
  rw [hcall]
  refine ⟨hvalid, fun e he => ?_, fun other => ?_, fun other => ?_, ?_⟩
  · rw [hinUse, List.mem_filter, decide_eq_true_eq] at he
    rw [currentOps, if_neg he.2.symm, h.ops e he.1]
  · rw [currentOps, hmem']
    split_ifs with hother
    · exact iff_of_false Bool.false_ne_true fun hin => hin.2 hother.symm
    · exact (h.current other).trans (and_iff_left (Ne.symm hother)).symm
  · rw [registeredAt, hmem']
    split_ifs with hother
    · exact iff_of_false Bool.false_ne_true fun hin => hin.2 hother.symm
    · exact (h.registered other).trans (and_iff_left (Ne.symm hother)).symm
  · have hsub : t.types.Sublist s.table.types := by
      rw [Table.types, hinUse]
      exact List.filter_sublist.map _
    exact pairwise_before_congr (h.order.sublist hsub) fun other hother =>
      hstays other ((hmem' other).mp hother).2

theorem Calls.Holds.register_refused (h : s.Holds) (hmem : type ∉ s.table.types)
    (hfull : s.table.count = maxTransportRegistrations) (ops : α) :
    (s.call (.register type ops)).Holds := by
  have hcall : s.call (.register type ops) =
      ⟨s.table, (.register type ops, -1) :: s.log⟩ := by
    simp only [Calls.call, Call.run, transportRegister_refused hmem hfull]
  have hcurrent (other : τ) : currentOps other ((.register type ops, -1) :: s.log) =
      currentOps other s.log := if_neg fun hif => absurd hif.2 (by decide)
  have hregistered (other : τ) : registeredAt other ((.register type ops, -1) :: s.log) =
      registeredAt other s.log := if_neg fun hif => absurd hif.2 (by decide)
  rw [hcall]
  refine ⟨h.valid, fun e he => ?_, fun other => ?_, fun other => ?_, ?_⟩
  · rw [hcurrent]
    exact h.ops e he
  · rw [hcurrent]
    exact h.current other
  · rw [hregistered]
    exact h.registered other
  · exact pairwise_before_congr h.order fun other _ => hregistered other

theorem Calls.Holds.unregister_absent (h : s.Holds) (hmem : type ∉ s.table.types) :
    (s.call (.unregister type)).Holds := by
  have hcall : s.call (.unregister type) = ⟨s.table, (.unregister type, -1) :: s.log⟩ := by
    simp only [Calls.call, Call.run, transportUnregister_absent hmem]
  have hne (other : τ) (hother : other ∈ s.table.types) : type ≠ other := by
    rintro rfl
    exact hmem hother
  rw [hcall]
  refine ⟨h.valid, fun e he => ?_, fun other => ?_, fun other => ?_, ?_⟩
  · rw [currentOps, if_neg (hne _ (List.mem_map_of_mem he))]
    exact h.ops e he
  · rw [currentOps]
    split_ifs with hother
    · exact iff_of_false Bool.false_ne_true (hother ▸ hmem)
    · exact h.current other
  · rw [registeredAt]
    split_ifs with hother
    · exact iff_of_false Bool.false_ne_true (hother ▸ hmem)
    · exact h.registered other
  · refine pairwise_before_congr h.order fun other hother => ?_
    rw [registeredAt, if_neg (hne other hother)]

/-- **Step.** Every call keeps the entries those that the calls have left. -/
theorem Calls.Holds.call (h : s.Holds) (c : Call τ α) : (s.call c).Holds := by
  cases c with
  | register type ops =>
    by_cases hmem : type ∈ s.table.types
    · exact h.register_present hmem ops
    · rcases Nat.lt_or_eq_of_le h.valid.count_le with hroom | hfull
      · exact h.register_absent hmem hroom ops
      · exact h.register_refused hmem hfull ops
  | unregister type =>
    by_cases hmem : type ∈ s.table.types
    · exact h.unregister_present hmem
    · exact h.unregister_absent hmem

end Steps

/-- **Run.** -/
theorem Calls.all_holds (zero : τ) (calls : List (Call τ α)) : (Calls.all zero calls).Holds := by
  have hrun (s : Calls τ α) (hs : s.Holds) : (calls.foldl Calls.call s).Holds := by
    induction calls generalizing s with
    | nil => exact hs
    | cons c calls ih => exact ih _ (hs.call c)
  exact hrun _ (initial_holds zero)

/-! ## The table is a map -/

/-- `transport_create` makes no transport without memory or without operations. With them, it
makes one with these on its own zeroed `hwio`, unless they have an `init` that fails on that. -/
structure Table.Creates (t : Table τ α) (type : τ) (current : Option α) : Prop where
  refused : ∀ {H : Type} name (init : α → Option (H → Int32 × H)) (zero : H) memory,
    memory = false ∨ current = none → transportCreate t type name memory init zero = none
  plain : ∀ {H : Type} name (init : α → Option (H → Int32 × H)) (zero : H) ops,
    current = some ops → init ops = none →
      transportCreate t type name true init zero = some ⟨name, ops, zero⟩
  started : ∀ {H : Type} name (init : α → Option (H → Int32 × H)) (zero : H) ops start hw,
    current = some ops → init ops = some start → start zero = (0, hw) →
      transportCreate t type name true init zero = some ⟨name, ops, hw⟩
  failed : ∀ {H : Type} name (init : α → Option (H → Int32 × H)) (zero : H) ops start,
    current = some ops → init ops = some start → (start zero).1 ≠ 0 →
      transportCreate t type name true init zero = none

/-- The table holds at most four types, in the order in which they were registered, and
`transport_create` uses what the calls have left for its type. What a further call does
depends on whether the type is present and the table full. -/
structure Calls.IsMap (s : Calls τ α) : Prop where
  bounded : s.table.count ≤ 4
  length : s.table.types.length = s.table.count
  distinct : s.table.types.Nodup
  order : s.table.types.Pairwise (Before s.log)
  registered : ∀ type, type ∈ s.table.types ↔ (registeredAt type s.log).isSome
  create : ∀ type, s.table.Creates type (currentOps type s.log)
  again : ∀ type ∈ s.table.types, ∀ ops,
    (transportRegister s.table type (some ops)).1 = 0 ∧
      (transportRegister s.table type (some ops)).2.types = s.table.types
  added : ∀ type ∉ s.table.types, s.table.count < 4 → ∀ ops,
    (transportRegister s.table type (some ops)).1 = 0 ∧
      (transportRegister s.table type (some ops)).2.types = s.table.types ++ [type]
  refused : ∀ type ∉ s.table.types, s.table.count = 4 → ∀ ops,
    transportRegister s.table type (some ops) = (-1, s.table)
  absent : ∀ type ∉ s.table.types, transportUnregister s.table type = (-1, s.table)
  removed : ∀ type ∈ s.table.types,
    (transportUnregister s.table type).1 = 0 ∧
      transportOps (transportUnregister s.table type).2 type = none ∧
      ∀ other ≠ type, transportOps (transportUnregister s.table type).2 other =
        transportOps s.table other

theorem Calls.Holds.creates {s : Calls τ α} (h : s.Holds) (type : τ) :
    s.table.Creates type (currentOps type s.log) := by
  rw [← h.transportOps]
  refine ⟨fun name init zero memory hrefused => ?_, fun name init zero ops hops hinit => ?_,
    fun name init zero ops start hw hops hinit hstart => ?_,
    fun name init zero ops start hops hinit hfails => ?_⟩
  · rcases hrefused with rfl | hnone
    · rfl
    · rw [transportCreate, hnone, Option.bind_none, ite_self]
  · rw [transportCreate, if_pos rfl, hops, Option.bind_some, transportStart, hinit]
  · rw [transportCreate, if_pos rfl, hops, Option.bind_some, transportStart, hinit]
    dsimp only
    rw [hstart]
    exact if_neg (not_not.mpr rfl)
  · rw [transportCreate, if_pos rfl, hops, Option.bind_some, transportStart, hinit]
    exact if_pos hfails

/-- After any calls, the table is a bounded map with the operations that these have left. -/
theorem transport_table_isMap (zero : τ) (calls : List (Call τ α)) :
    (Calls.all zero calls).IsMap := by
  have h := Calls.all_holds zero calls
  generalize Calls.all zero calls = s at h
  refine ⟨h.valid.count_le, h.valid.length_types, h.valid.nodup, h.order,
    fun type => (h.registered type).symm, h.creates, ?_, ?_, ?_, ?_, ?_⟩
  · intro type hmem ops
    obtain ⟨t, ht, -, htypes, -⟩ := transportRegister_present h.valid hmem ops
    rw [ht]
    exact ⟨rfl, htypes⟩
  · intro type hmem hroom ops
    obtain ⟨t, ht, -, hinUse⟩ := transportRegister_absent h.valid hmem hroom ops
    rw [ht, Table.types, hinUse, List.map_append]
    exact ⟨rfl, rfl⟩
  · exact fun type hmem hfull ops => transportRegister_refused hmem hfull (some ops)
  · exact fun type hmem => transportUnregister_absent hmem
  · intro type hmem
    obtain ⟨t, ht, -⟩ := transportUnregister_present h.valid hmem
    have hafter (other : τ) : transportOps (transportUnregister s.table type).2 other =
        if type = other then none else currentOps other s.log :=
      (h.call (.unregister type)).transportOps other
    refine ⟨congrArg Prod.fst ht, (hafter type).trans (if_pos rfl), fun other hother => ?_⟩
    rw [hafter, if_neg hother.symm, h.transportOps]

/-! ## As a list -/

/-- The table of the transports of this program, as the list of its registrations. -/
def Table.toList (t : Table TransportType HwioOps) : TransportTable :=
  t.inUse.filterMap fun e => e.ops.map fun ops => (e.type, ops)

theorem Calls.Holds.types_toList {s : Calls TransportType HwioOps} (h : s.Holds) :
    s.table.toList.map (·.1) = s.table.types := by
  rw [Table.toList, List.map_filterMap, Table.types, ← List.filterMap_eq_map]
  refine List.filterMap_congr fun e he => ?_
  obtain ⟨ops, hsome⟩ := h.exists_ops he
  simp [hsome]

/-- After any calls, registering does to the list what it does to the array. -/
theorem transportRegister_toList (zero : TransportType)
    (calls : List (Call TransportType HwioOps)) (type : TransportType) (ops : HwioOps) :
    let t := (Calls.all zero calls).table
    let registered := transportRegister t type (some ops)
    MlinkDevice.transportRegister t.toList type ops =
      (decide (registered.1 = 0), registered.2.toList) := by
  have h := Calls.all_holds zero calls
  generalize Calls.all zero calls = s at h
  have htypes := h.types_toList
  have hany : s.table.toList.any (fun entry => entry.1 = type) = true ↔ type ∈ s.table.types := by
    rw [← htypes, List.any_eq_true]
    simp
  have hlength : s.table.toList.length = s.table.count := by
    rw [← h.valid.length_types, ← htypes, List.length_map]
  by_cases hmem : type ∈ s.table.types
  · obtain ⟨t, ht, -, -, hinUse⟩ := transportRegister_present h.valid hmem ops
    dsimp only
    rw [ht, MlinkDevice.transportRegister, if_pos (hany.mpr hmem), Table.toList, Table.toList, hinUse,
      List.map_filterMap, List.filterMap_map]
    refine Prod.ext rfl (List.filterMap_congr fun e he => ?_)
    obtain ⟨old, hold⟩ := h.exists_ops he
    by_cases htype : e.type = type
    · simp [htype, hold]
    · simp [htype, hold]
  · rcases Nat.lt_or_eq_of_le h.valid.count_le with hroom | hfull
    · obtain ⟨t, ht, -, hinUse⟩ := transportRegister_absent h.valid hmem hroom ops
      dsimp only
      rw [ht, MlinkDevice.transportRegister, if_neg (mt hany.mp hmem), hlength,
        if_neg (Nat.not_le_of_lt hroom), Table.toList, Table.toList, hinUse, List.filterMap_append]
      rfl
    · dsimp only
      rw [transportRegister_refused hmem hfull, MlinkDevice.transportRegister,
        if_neg (mt hany.mp hmem), hlength, if_pos (Nat.le_of_eq hfull.symm)]
      rfl

end MlinkDevice.Registry
