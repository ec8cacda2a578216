import Mathlib.Data.List.Infix

/-!
# Runs of a step function

A step function says which actions a state can take and where each leads. A run is a
sequence of actions, so the order in which several parties act is the order of their
actions in it.
-/

namespace MlinkDevice.Runs

variable {σ α : Type*} (step : σ → α → Option σ)

/-- The state after the actions, when each of them can be taken in its turn. -/
def run : σ → List α → Option σ
  | s, [] => some s
  | s, a :: rest => (step s a).bind fun t => run t rest

/-- Each action of the run is taken in a state where `P` allows it. -/
def Along (P : σ → α → Prop) : σ → List α → Prop
  | _, [] => True
  | s, a :: rest => P s a ∧ ∀ t, step s a = some t → Along P t rest

instance Along.decidable (P : σ → α → Prop) [∀ s, DecidablePred (P s)] :
    ∀ s actions, Decidable (Along step P s actions)
  | _, [] => .isTrue trivial
  | s, a :: rest =>
    have : Decidable (∀ t, step s a = some t → Along step P t rest) :=
      match _h : step s a with
      | none => .isTrue fun _ ht => absurd ht.symm (Option.some_ne_none _)
      | some t => match Along.decidable P t rest with
        | .isTrue hP => .isTrue fun _ hu => Option.some.inj hu ▸ hP
        | .isFalse hP => .isFalse fun hall => hP (hall t rfl)
    inferInstanceAs (Decidable (P s a ∧ _))

/-- Every state that the run goes through is good. -/
def Always (Good : σ → Prop) (s : σ) (actions : List α) : Prop :=
  ∀ taken, taken <+: actions → ∀ t, run step s taken = some t → Good t

variable {step} {P : σ → α → Prop} {Inv Good : σ → Prop} {s t : σ} {a : α} {actions : List α}

theorem run_cons : run step s (a :: actions) = some t ↔
    ∃ u, step s a = some u ∧ run step u actions = some t :=
  Option.bind_eq_some_iff

theorem run_append (more : List α) :
    run step s (actions ++ more) = (run step s actions).bind fun t => run step t more := by
  induction actions generalizing s with
  | nil => rfl
  | cons a actions ih =>
    simp only [List.cons_append, run, ih]
    rw [Option.bind_assoc]

theorem along_true (s : σ) (actions : List α) : Along step (fun _ _ => True) s actions := by
  induction actions generalizing s with
  | nil => trivial
  | cons a actions ih => exact ⟨trivial, fun t _ => ih t⟩

theorem along_iff_forall {Q : α → Prop} (h : run step s actions = some t) :
    Along step (fun _ a => Q a) s actions ↔ ∀ a ∈ actions, Q a := by
  induction actions generalizing s with
  | nil => exact ⟨fun _ a ha => absurd ha List.not_mem_nil, fun _ => trivial⟩
  | cons a actions ih =>
    obtain ⟨u, hu, hrun⟩ := run_cons.mp h
    rw [List.forall_mem_cons, ← ih hrun]
    refine and_congr_right fun _ => ⟨fun hrest => hrest u hu, fun hrest v hv => ?_⟩
    obtain rfl : u = v := Option.some.inj (hu.symm.trans hv)
    exact hrest

theorem Along.imp {Q : σ → α → Prop}
    (hstep : ∀ s a t, Inv s → P s a → step s a = some t → Inv t)
    (himp : ∀ s a, Inv s → P s a → Q s a) (hs : Inv s) (h : Along step P s actions) :
    Along step Q s actions := by
  induction actions generalizing s with
  | nil => trivial
  | cons a actions ih =>
    exact ⟨himp s a hs h.1, fun t ht => ih (hstep s a t hs h.1 ht) (h.2 t ht)⟩

theorem Along.and_forall {Q : α → Prop} (h : Along step P s actions) (hQ : ∀ a ∈ actions, Q a) :
    Along step (fun s a => P s a ∧ Q a) s actions := by
  induction actions generalizing s with
  | nil => trivial
  | cons a actions ih =>
    obtain ⟨ha, hrest⟩ := List.forall_mem_cons.mp hQ
    exact ⟨⟨h.1, ha⟩, fun t ht => ih (h.2 t ht) hrest⟩

theorem Along.append {more : List α} (h : Along step P s actions) (hrun : run step s actions = some t)
    (hmore : Along step P t more) : Along step P s (actions ++ more) := by
  induction actions generalizing s with
  | nil => exact Option.some.inj hrun ▸ hmore
  | cons a actions ih =>
    obtain ⟨u, hu, hrun⟩ := run_cons.mp hrun
    refine ⟨h.1, fun v hv => ?_⟩
    obtain rfl : u = v := Option.some.inj (hu.symm.trans hv)
    exact ih (h.2 u hu) hrun

theorem Along.left {more : List α} (h : Along step P s (actions ++ more)) :
    Along step P s actions := by
  induction actions generalizing s with
  | nil => trivial
  | cons a actions ih => exact ⟨h.1, fun t ht => ih (h.2 t ht)⟩

theorem run_isSome (h : ∀ s a, (step s a).isSome) : (run step s actions).isSome := by
  induction actions generalizing s with
  | nil => rfl
  | cons a actions ih =>
    obtain ⟨t, ht⟩ := Option.isSome_iff_exists.mp (h s a)
    rw [run, ht]
    exact ih

/-- What every allowed step preserves holds after every allowed run. -/
theorem run_invariant (Inv : σ → Prop)
    (hstep : ∀ s a t, Inv s → P s a → step s a = some t → Inv t) (hs : Inv s)
    (hP : Along step P s actions) (h : run step s actions = some t) : Inv t := by
  induction actions generalizing s with
  | nil =>
    obtain rfl : s = t := Option.some.inj h
    exact hs
  | cons a actions ih =>
    obtain ⟨u, hu, hrun⟩ := run_cons.mp h
    exact ih (hstep s a u hs hP.1 hu) (hP.2 u hu) hrun

/-- When every allowed step can be taken, so can every allowed run. -/
theorem run_progress (Inv : σ → Prop)
    (hstep : ∀ s a, Inv s → P s a → ∃ t, step s a = some t ∧ Inv t) (hs : Inv s)
    (hP : Along step P s actions) : ∃ t, run step s actions = some t ∧ Inv t := by
  induction actions generalizing s with
  | nil => exact ⟨s, rfl, hs⟩
  | cons a actions ih =>
    obtain ⟨u, hu, hInv⟩ := hstep s a hs hP.1
    obtain ⟨t, hrun, ht⟩ := ih hInv (hP.2 u hu)
    exact ⟨t, run_cons.mpr ⟨u, hu, hrun⟩, ht⟩

/-- A run stays good as long as all its steps are allowed. -/
theorem always_of_along (hgood : ∀ s, Inv s → Good s)
    (hstep : ∀ s a t, Inv s → P s a → step s a = some t → Inv t) (hs : Inv s)
    (hP : Along step P s actions) : Always step Good s actions := by
  intro taken htaken t hrun
  refine hgood t (run_invariant Inv hstep hs ?_ hrun)
  obtain ⟨rest, rfl⟩ := htaken
  exact hP.left

/-- The first action of a run that is not allowed. -/
theorem exists_not_allowed (h : ¬ Along step P s actions) : ∃ before a t,
    before ++ [a] <+: actions ∧ Along step P s before ∧ run step s before = some t ∧ ¬ P t a := by
  induction actions generalizing s with
  | nil => exact absurd trivial h
  | cons a actions ih =>
    by_cases ha : P s a
    · have hrest : ∃ t, step s a = some t ∧ ¬ Along step P t actions := by
        by_contra hall
        exact h ⟨ha, fun t ht => by_contra fun hrest => hall ⟨t, ht, hrest⟩⟩
      obtain ⟨t, ht, hrest⟩ := hrest
      obtain ⟨before, b, u, hinit, halong, hrun, hb⟩ := ih hrest
      refine ⟨a :: before, b, u, List.cons_prefix_cons.mpr ⟨rfl, hinit⟩, ⟨ha, ?_⟩,
        run_cons.mpr ⟨t, ht, hrun⟩, hb⟩
      intro v hv
      obtain rfl : t = v := Option.some.inj (ht.symm.trans hv)
      exact halong
    · exact ⟨[], a, s, List.cons_prefix_cons.mpr ⟨rfl, List.nil_prefix⟩, trivial, rfl, ha⟩

theorem always_cons (hu : step s a = some t) :
    Always step Good s (a :: actions) ↔ Good s ∧ Always step Good t actions := by
  constructor
  · intro h
    refine ⟨h [] List.nil_prefix s rfl, fun taken htaken u hrun => ?_⟩
    exact h (a :: taken) (List.cons_prefix_cons.mpr ⟨rfl, htaken⟩) u (run_cons.mpr ⟨t, hu, hrun⟩)
  · rintro ⟨hs, h⟩ taken htaken u hrun
    rcases taken with _ | ⟨b, taken⟩
    · obtain rfl : s = u := Option.some.inj hrun
      exact hs
    · obtain ⟨rfl, hrest⟩ := List.cons_prefix_cons.mp htaken
      obtain ⟨v, hv, hrun⟩ := run_cons.mp hrun
      obtain rfl : t = v := Option.some.inj (hu.symm.trans hv)
      exact h taken hrest u hrun

/-- When an allowed step preserves the invariant and any other step ends in a bad state, a
run stays good exactly when each of its steps is allowed. -/
theorem always_iff_along (hgood : ∀ s, Inv s → Good s)
    (hstep : ∀ s a t, Inv s → P s a → step s a = some t → Inv t)
    (hbad : ∀ s a t, Inv s → step s a = some t → Good t → P s a) (hs : Inv s)
    (h : (run step s actions).isSome) : Always step Good s actions ↔ Along step P s actions := by
  refine ⟨fun halways => ?_, always_of_along hgood hstep hs⟩
  induction actions generalizing s with
  | nil => trivial
  | cons a actions ih =>
    obtain ⟨t, ht⟩ := Option.isSome_iff_exists.mp h
    obtain ⟨u, hu, hrun⟩ := run_cons.mp ht
    obtain ⟨-, hrest⟩ := (always_cons hu).mp halways
    have hP : P s a := hbad s a u hs hu (hrest [] List.nil_prefix u rfl)
    refine ⟨hP, fun v hv => ?_⟩
    obtain rfl : u = v := Option.some.inj (hu.symm.trans hv)
    exact ih (hstep s a u hs hP hu) (Option.isSome_iff_exists.mpr ⟨t, hrun⟩) hrest

/-! ## Runs of an abstraction -/

/-- Where each step is at most one of the abstraction, a run is a run of the abstraction. -/
theorem exists_abstract_run (Inv : σ → Prop) {τ β : Type*} {abstract : τ → β → Option τ} (f : σ → τ)
    (hstep : ∀ s a t, Inv s → P s a → step s a = some t →
      Inv t ∧ (f t = f s ∨ ∃ b, abstract (f s) b = some (f t)))
    (hs : Inv s) (hP : Along step P s actions) (h : run step s actions = some t) :
    ∃ bs, run abstract (f s) bs = some (f t) := by
  induction actions generalizing s with
  | nil =>
    obtain rfl : s = t := Option.some.inj h
    exact ⟨[], rfl⟩
  | cons a actions ih =>
    obtain ⟨u, hu, hrun⟩ := run_cons.mp h
    obtain ⟨hInv, habstract⟩ := hstep s a u hs hP.1 hu
    obtain ⟨bs, hbs⟩ := ih hInv (hP.2 u hu) hrun
    rcases habstract with hsame | ⟨b, hb⟩
    · exact ⟨bs, hsame ▸ hbs⟩
    · exact ⟨b :: bs, run_cons.mpr ⟨f u, hb, hbs⟩⟩

/-- Where runs of the other system follow each step from related states, they follow every run. -/
theorem exists_simulating_run {τ β : Type*} {other : τ → β → Option τ} (R : σ → τ → Prop)
    (hstep : ∀ s a t c, R s c → step s a = some t → ∃ bs d, run other c bs = some d ∧ R t d) {c : τ}
    (hs : R s c) (h : run step s actions = some t) : ∃ bs d, run other c bs = some d ∧ R t d := by
  induction actions generalizing s c with
  | nil =>
    obtain rfl : s = t := Option.some.inj h
    exact ⟨[], c, rfl, hs⟩
  | cons a actions ih =>
    obtain ⟨u, hu, hrun⟩ := run_cons.mp h
    obtain ⟨bs, d, hbs, hd⟩ := hstep s a u c hs hu
    obtain ⟨more, e, hmore, he⟩ := ih hd hrun
    refine ⟨bs ++ more, e, ?_, he⟩
    rw [run_append, hbs, Option.bind_some, hmore]

/-! ## Runs that end -/

section Ends

variable {measure : σ → ℕ}

/-- Where every allowed step leaves less to do, a run is no longer than what there is to do. -/
theorem length_le_measure
    (hstep : ∀ s a t, Inv s → P s a → step s a = some t → Inv t ∧ measure t < measure s) (hs : Inv s)
    (hP : Along step P s actions) (h : run step s actions = some t) :
    actions.length + measure t ≤ measure s := by
  induction actions generalizing s with
  | nil =>
    obtain rfl : s = t := Option.some.inj h
    simp
  | cons a actions ih =>
    obtain ⟨u, hu, hrun⟩ := run_cons.mp h
    obtain ⟨hInv, hless⟩ := hstep s a u hs hP.1 hu
    have hrest := ih hInv (hP.2 u hu) hrun
    rw [List.length_cons]
    omega

/-- And where a step is left as long as there is something to do, it comes to its end. -/
theorem exists_final {Final : σ → Prop}
    (hstep : ∀ s a t, Inv s → P s a → step s a = some t → Inv t ∧ measure t < measure s)
    (hnext : ∀ s, Inv s → Final s ∨ ∃ a t, P s a ∧ step s a = some t) (hs : Inv s) :
    ∃ actions t, Along step P s actions ∧ run step s actions = some t ∧ Inv t ∧ Final t := by
  induction hn : measure s using Nat.strong_induction_on generalizing s with
  | _ n ih =>
    rcases hnext s hs with hfinal | ⟨a, u, ha, hu⟩
    · exact ⟨[], s, trivial, rfl, hs, hfinal⟩
    · obtain ⟨hInv, hless⟩ := hstep s a u hs ha hu
      obtain ⟨actions, t, halong, hrun, ht, hfinal⟩ := ih (measure u) (hn ▸ hless) hInv rfl
      refine ⟨a :: actions, t, ⟨ha, fun v hv => ?_⟩, run_cons.mpr ⟨u, hu, hrun⟩, ht, hfinal⟩
      obtain rfl : u = v := Option.some.inj (hu.symm.trans hv)
      exact halong

/-- So every run is bounded, only ends there, and can be led there. -/
theorem settles {Final : σ → Prop}
    (hstep : ∀ s a t, Inv s → P s a → step s a = some t → Inv t ∧ measure t < measure s)
    (hnext : ∀ s, Inv s → Final s ∨ ∃ a t, P s a ∧ step s a = some t) (hs : Inv s) :
    (∀ actions t, Along step P s actions → run step s actions = some t →
      actions.length ≤ measure s ∧ Inv t ∧ ((∀ a, P t a → step t a = none) → Final t)) ∧
    ∃ actions t, Along step P s actions ∧ run step s actions = some t ∧ Inv t ∧ Final t := by
  refine ⟨fun actions t halong hrun => ?_, exists_final hstep hnext hs⟩
  have hlength := length_le_measure hstep hs halong hrun
  have ht : Inv t := run_invariant Inv (fun s a t hs ha h => (hstep s a t hs ha h).1) hs halong hrun
  refine ⟨(Nat.le_add_right _ _).trans hlength, ht, fun hstuck => ?_⟩
  rcases hnext t ht with hfinal | ⟨a, u, ha, hu⟩
  · exact hfinal
  · rw [hstuck a ha] at hu
    exact absurd hu.symm (Option.some_ne_none u)

end Ends

end MlinkDevice.Runs
