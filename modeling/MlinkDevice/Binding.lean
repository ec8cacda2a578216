import MlinkDevice.Arguments

/-!
# Which argument a property gets

`mcp_server_parse_arguments` looks an argument up with `cJSON_GetObjectItem`, which ignores
letter case. The getters compare names with `strcmp`.
-/

open MlinkDevice.CStr

namespace MlinkDevice

variable {W : Type}

/-! ## Members -/

def CJson.members : CJson → List (CStr × CJson)
  | .object members => members
  | _ => []

def argumentMembers (arguments : Option CJson) : List (CStr × CJson) :=
  (arguments.map CJson.members).getD []

/-- The member that the loop takes for a property. -/
def memberFor (arguments : Option CJson) (property : McpProperty) : Option (CStr × CJson) :=
  property.name.bind fun name =>
    (argumentMembers arguments).find? fun m => name.sameLetters m.1

/-- A property with what its member, if any, makes of it. -/
def bound (property : McpProperty) : Option (CStr × CJson) → McpProperty
  | none => property
  | some m => (mcpPropertyCopyFromJson property m.2).2

/-- The properties that the loop gets to, each with its member. It stops after a bad one. -/
def bindings (arguments : Option CJson) : List McpProperty →
    List (McpProperty × Option (CStr × CJson))
  | [] => []
  | property :: rest =>
    (property, memberFor arguments property) ::
      if rejects arguments property then [] else bindings arguments rest

/-! ## The loop -/

theorem argumentOf_eq_member (arguments : Option CJson) (property : McpProperty) :
    argumentOf arguments property = (memberFor arguments property).map (·.2) := by
  unfold argumentOf memberFor argumentMembers
  cases arguments with
  | none => cases property.name <;> rfl
  | some v =>
    cases property.name with
    | none => rfl
    | some name => cases v <;> rfl

/-- What the loop leaves is its bindings, and then the properties that it did not get to. -/
theorem parseLoop_bindings (arguments : Option CJson) (properties : List McpProperty) (ok : Bool)
    (errorProperty : Option CStr) :
    (parseArgumentsLoop arguments properties ok errorProperty).parsed =
      (bindings arguments properties).map (fun b => bound b.1 b.2) ++
        properties.drop (bindings arguments properties).length := by
  induction properties generalizing ok errorProperty with
  | nil => rfl
  | cons p rest ih =>
    have hmember := argumentOf_eq_member arguments p
    have hrejects : rejects arguments p = (argumentOf arguments p).any fun v => !accepts p v := rfl
    unfold bindings
    rw [hrejects, hmember]
    unfold argumentOf at hmember
    unfold parseArgumentsLoop
    rw [hmember]
    cases memberFor arguments p with
    | none => cases p.hasDefault <;> simp [ih, bound]
    | some m => cases haccepts : accepts p m.2 <;> simp [ih, bound, copyFromJson_eq, haccepts]

theorem mem_bindings {arguments : Option CJson} {properties : List McpProperty}
    {b : McpProperty × Option (CStr × CJson)} :
    b ∈ bindings arguments properties ↔ ∃ before after, properties = before ++ b.1 :: after ∧
      (∀ q ∈ before, rejects arguments q = false) ∧ b.2 = memberFor arguments b.1 := by
  induction properties with
  | nil => simp [bindings]
  | cons p rest ih =>
    unfold bindings
    rw [List.mem_cons]
    constructor
    · rintro (rfl | hrest)
      · exact ⟨[], rest, rfl, by simp, rfl⟩
      · cases hrejects : rejects arguments p with
        | true => simp [hrejects] at hrest
        | false =>
          rw [hrejects, if_neg Bool.false_ne_true, ih] at hrest
          obtain ⟨before, after, rfl, hbefore, hmember⟩ := hrest
          exact ⟨p :: before, after, rfl, by simpa [hrejects] using hbefore, hmember⟩
    · rintro ⟨before, after, hsplit, hbefore, hmember⟩
      rcases before with _ | ⟨q, before⟩
      · obtain ⟨rfl, rfl⟩ := List.cons_eq_cons.mp hsplit
        exact .inl (Prod.ext rfl hmember)
      · obtain ⟨rfl, rfl⟩ := List.cons_eq_cons.mp hsplit
        obtain ⟨hrejects, hbefore⟩ := List.forall_mem_cons.mp hbefore
        rw [hrejects, if_neg Bool.false_ne_true, ih]
        exact .inr ⟨before, after, rfl, hbefore, hmember⟩

/-! ## Exact names -/

/-- That is the member with exactly the name, or none if there is no such member. -/
def BoundByName (members : List (CStr × CJson)) (name : CStr) : Option (CStr × CJson) → Prop
  | some m => m ∈ members ∧ m.1 = name
  | none => ∀ m ∈ members, m.1 ≠ name

/-- A key that differs from the name in letter case only comes after the name itself. -/
def NameFirst (members : List (CStr × CJson)) (name : CStr) : Prop :=
  ∀ (i : ℕ) m, members[i]? = some m → name.sameLetters m.1 = true → m.1 ≠ name →
    ∃ j < i, ∃ m', members[j]? = some m' ∧ m'.1 = name

theorem boundByName_iff (members : List (CStr × CJson)) (name : CStr) :
    BoundByName members name (members.find? fun m => name.sameLetters m.1) ↔
      NameFirst members name := by
  cases hfind : members.find? fun m => name.sameLetters m.1 with
  | none =>
    have hno := List.find?_eq_none.mp hfind
    refine iff_of_true (fun m hm heq => hno m hm ?_) fun i m hi hsame => ?_
    · rw [heq, sameLetters_refl]
    · exact absurd hsame (hno m (List.mem_of_getElem? hi))
  | some m =>
    obtain ⟨hsame, k, hk, hget, hbefore⟩ := List.find?_eq_some_iff_getElem.mp hfind
    have hat : members[k]? = some m := List.getElem?_eq_some_iff.mpr ⟨hk, hget⟩
    have hnone : ∀ (j : ℕ) m', j < k → members[j]? = some m' → name.sameLetters m'.1 = false := by
      intro j m' hj hm'
      obtain ⟨hlt, rfl⟩ := List.getElem?_eq_some_iff.mp hm'
      simpa using hbefore j hj
    constructor
    · rintro ⟨-, hname⟩ i m' hi hsame' hne
      refine ⟨k, ?_, m, hat, hname⟩
      rcases Nat.lt_trichotomy i k with hlt | rfl | hgt
      · rw [hnone i m' hlt hi] at hsame'
        exact Bool.noConfusion hsame'
      · obtain rfl : m' = m := by simpa [hat] using hi.symm
        exact absurd hname hne
      · exact hgt
    · intro hfirst
      refine ⟨List.mem_of_getElem? hat, ?_⟩
      by_contra hne
      obtain ⟨j, hj, m', hm', hname⟩ := hfirst k m hat hsame hne
      have := hnone j m' hj hm'
      rw [hname, sameLetters_refl] at this
      exact Bool.noConfusion this

/-! ## Binding by name -/

/-- Each property that the loop gets to is bound by its exact name, and after a good run the
callback reads under each name what the member of that name makes of its property. -/
structure BindsByName (tool : McpTool W) (arguments : Option CJson) : Prop where
  bound : ∀ b ∈ bindings arguments tool.properties, ∀ name, b.1.name = some name →
    BoundByName (argumentMembers arguments) name b.2
  read : (mcpServerParseArguments tool arguments).ok = true →
    ∀ p ∈ tool.properties, ∀ name, p.name = some name →
      ∃ m, BoundByName (argumentMembers arguments) name m ∧
        mcpPropertyListGetConst (mcpServerParseArguments tool arguments).parsed name =
          some (MlinkDevice.bound p m)

theorem received_eq_bound {arguments : Option CJson} {p : McpProperty}
    (h : passes arguments p = true) : received arguments p = bound p (memberFor arguments p) := by
  rw [passes, argumentOf_eq_member] at h
  rw [received, argumentOf_eq_member]
  cases hmember : memberFor arguments p with
  | none => rfl
  | some m =>
    have haccepts : accepts p m.2 = true := by simpa [hmember] using h
    rw [bound, copyFromJson_eq, if_pos haccepts]
    rfl

/-- Properties are bound by exact name exactly when, for each that is looked up, a key that
differs from its name in letter case only comes after the name itself. -/
theorem bindsByName_iff {tool : McpTool W} (hnames : (tool.properties.map (·.name)).Nodup)
    (arguments : Option CJson) :
    BindsByName tool arguments ↔
      ∀ before p after, tool.properties = before ++ p :: after →
        (∀ q ∈ before, rejects arguments q = false) →
        ∀ name, p.name = some name → NameFirst (argumentMembers arguments) name := by
  have hmember : ∀ {p : McpProperty} {name : CStr}, p.name = some name →
      (BoundByName (argumentMembers arguments) name (memberFor arguments p) ↔
        NameFirst (argumentMembers arguments) name) := by
    intro p name hname
    rw [memberFor, hname, Option.bind_some, boundByName_iff]
  constructor
  · intro h before p after hsplit hbefore name hname
    rw [← hmember hname]
    exact h.bound (p, memberFor arguments p)
      (mem_bindings.mpr ⟨before, after, hsplit, hbefore, rfl⟩) name hname
  · intro h
    refine ⟨fun b hb name hname => ?_, fun hok p hp name hname => ?_⟩
    · obtain ⟨before, after, hsplit, hbefore, heq⟩ := mem_bindings.mp hb
      rw [heq, hmember hname]
      exact h before b.1 after hsplit hbefore name hname
    · have hpasses := (parseArguments_ok_iff tool arguments).mp hok
      obtain ⟨before, after, hsplit⟩ := List.append_of_mem hp
      have hbefore : ∀ q ∈ before, rejects arguments q = false := by
        intro q hq
        have hpass := hpasses q (by rw [hsplit]; exact List.mem_append_left _ hq)
        rw [passes_eq, Bool.and_eq_true, Bool.not_eq_true'] at hpass
        exact hpass.1
      refine ⟨memberFor arguments p, ?_, ?_⟩
      · rw [hmember hname]
        exact h before p after hsplit hbefore name hname
      · rw [parseArguments_passes hpasses, getConst_received, getConst_of_nodup hnames hp hname,
          Option.map_some, received_eq_bound (hpasses p hp)]

/-! ## Two names that differ in letter case only -/

def lampTool : McpTool Unit where
  name := lit "lamp"
  description := ∅
  properties := (mcpPropertyListAddBool (mcpPropertyListAddBool [] (some (lit "a")) false false).2
    (some (lit "A")) false false).2
  callback := none
  userOnly := false

theorem lampTool_names : (lampTool.properties.map (·.name)).Nodup := by decide

theorem bindsByName_iff_lamp : BindsByName lampTool
    (some (.object [(lit "b", .bool true)])) := by
  refine (bindsByName_iff lampTool_names _).mpr ?_
  rintro before p after hsplit - name hname i m hi hsame -
  obtain rfl : m = (lit "b", .bool true) := List.mem_singleton.mp (List.mem_of_getElem? hi)
  have hp : p ∈ lampTool.properties := by
    rw [hsplit]
    exact List.mem_append_right _ List.mem_cons_self
  have hnot : ∀ q ∈ lampTool.properties, (q.name.getD ∅).sameLetters (lit "b") = false := by decide
  have := hnot p hp
  rw [hname, Option.getD_some, hsame] at this
  exact Bool.noConfusion this

def upperFirst : CJson := .object [(lit "A", .bool true), (lit "a", .bool false)]

/-- The callback reads the value of `A` under the name `a`. -/
theorem lower_reads_upper :
    (mcpServerParseArguments lampTool (some upperFirst)).ok = true ∧
    mcpPropertyListGetBool (mcpServerParseArguments lampTool (some upperFirst)).parsed (lit "a") =
      some true ∧
    upperFirst.member (lit "a") = some (.bool false) ∧
    ¬ BindsByName lampTool (some upperFirst) := by
  refine ⟨rfl, rfl, rfl, fun h => ?_⟩
  have hbound := h.bound _ List.mem_cons_self (lit "a") rfl
  exact absurd hbound.2 (by decide)

end MlinkDevice
