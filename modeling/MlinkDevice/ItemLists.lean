import MlinkDevice.ItemSequence
import MlinkDevice.Runs

/-!
# Any number of lists

Any calls of `list.c` on any lists, with a `realloc` that may fail each time. As long as no new
capacity outgrows a `size_t`, each list holds the items that were added to it, in order.
-/

namespace MlinkDevice

/-! ## Calls -/

inductive ListOp where
  | init (list : ℕ) (itemSize : UInt64)
  | reserve (list : ℕ) (memory : Realloc) (required : UInt64)
  | add (list : ℕ) (memory : Realloc) (item : Option (List UInt8)) (copyFunc : Option CopyFunc)
  | clear (list : ℕ) (freeFunc : Bool)
  | free (list : ℕ) (freeFunc : Bool)
  | clone (dst src : ℕ) (memory : ℕ → Realloc) (copyFunc : Option (ℕ → CopyFunc))
      (freeFunc : Bool)

/-- The lists, and for each of them what was added to it since its last init, clear or free. -/
structure Lists where
  list : ℕ → ListT
  added : ℕ → List (List UInt8)

/-- Every list is initialized before its first use, and `list_init` reads nothing. -/
def Lists.start : Lists := ⟨fun _ => listInit 1, fun _ => []⟩

def Lists.set (s : Lists) (i : ℕ) (list : ListT) (added : List (List UInt8)) : Lists :=
  ⟨Function.update s.list i list, Function.update s.added i added⟩

/-- A call, unless it does not return. A clone adds copies of the items of its source. -/
def listStep (s : Lists) : ListOp → Option Lists
  | .init i itemSize => some (s.set i (listInit itemSize) [])
  | .reserve i memory required =>
    (listReserve memory (s.list i) required).map fun r => s.set i r.2 (s.added i)
  | .add i memory item copyFunc =>
    (listAdd memory (s.list i) item copyFunc).map fun r => s.set i r.2
      (if r.1 then s.added i ++ (item.map (copied (s.list i).itemSize copyFunc)).toList
        else s.added i)
  | .clear i freeFunc => some (s.set i (listClear freeFunc (s.list i)).1 [])
  | .free i freeFunc => some (s.set i (listFree freeFunc (s.list i)).1 [])
  | .clone dst src memory copyFunc freeFunc =>
    let s := s.set dst (listInit (s.list src).itemSize) []
    (listClone memory copyFunc freeFunc (s.list src)).map fun r => s.set dst r.dst
      (if r.ok then clonedItems (s.list src).itemSize copyFunc (s.added src) else [])

/-- Items have at least one byte, and a capacity that a call needs has room in a `size_t`. -/
def ListOp.Small (s : Lists) : ListOp → Prop
  | .init _ itemSize => 1 ≤ itemSize.toNat
  | .reserve i _ required => (s.list i).Fits required.toNat
  | .add i _ item _ => item ≠ none → (s.list i).Fits ((s.list i).count.toNat + 1)
  | _ => True

/-! ## Steps -/

/-- Each list is in order and holds what was added to it. -/
structure Lists.InOrder (s : Lists) : Prop where
  valid : ∀ i, (s.list i).Valid
  contents : ∀ i, (s.list i).contents = s.added i

theorem Lists.InOrder.set {s : Lists} (h : s.InOrder) (i : ℕ) {list : ListT}
    {added : List (List UInt8)} (hvalid : list.Valid) (hcontents : list.contents = added) :
    (s.set i list added).InOrder := by
  refine ⟨fun j => ?_, fun j => ?_⟩
  · by_cases hj : j = i
    · subst hj
      simpa [Lists.set] using hvalid
    · simpa [Lists.set, hj] using h.valid j
  · by_cases hj : j = i
    · subst hj
      simpa [Lists.set] using hcontents
    · simpa [Lists.set, hj] using h.contents j

theorem lists_start_inOrder : Lists.start.InOrder :=
  ⟨fun _ => listInit_valid (by decide), fun _ => rfl⟩

/-- **Step.** A small call returns and keeps the lists in order. -/
theorem listStep_inOrder (s : Lists) (op : ListOp) (h : s.InOrder) (hsmall : op.Small s) :
    ∃ t, listStep s op = some t ∧ t.InOrder := by
  cases op with
  | init i itemSize => exact ⟨_, rfl, h.set i (listInit_valid hsmall) rfl⟩
  | reserve i memory required =>
    obtain ⟨ok, list', hreserve, hspec⟩ := (h.valid i).reserve memory hsmall
    refine ⟨_, congrArg (Option.map _) hreserve, h.set i hspec.valid ?_⟩
    exact hspec.contents.trans (h.contents i)
  | add i memory item copyFunc =>
    cases item with
    | none =>
      refine ⟨_, rfl, h.set i (h.valid i) ?_⟩
      exact h.contents i
    | some item =>
      obtain ⟨ok, list', hadd, hspec⟩ :=
        (h.valid i).add memory item copyFunc (hsmall (Option.some_ne_none item))
      refine ⟨_, congrArg (Option.map _) hadd, h.set i hspec.valid ?_⟩
      cases ok with
      | false =>
        rw [hspec.failed rfl]
        exact h.contents i
      | true =>
        rw [hspec.added rfl, h.contents i]
        rfl
  | clear i freeFunc => exact ⟨_, rfl, h.set i (h.valid i).clear rfl⟩
  | free i freeFunc =>
    exact ⟨_, rfl, h.set i (listInit_valid (h.valid i).size_pos) rfl⟩
  | clone dst src memory copyFunc freeFunc =>
    have hinit := h.set dst (listInit_valid (h.valid src).size_pos) rfl
    obtain ⟨r, hclone, hspec⟩ := (hinit.valid src).clone memory copyFunc freeFunc
    refine ⟨_, congrArg (Option.map _) hclone, hinit.set dst hspec.valid ?_⟩
    cases hok : r.ok with
    | false =>
      rw [(hspec.failed hok).1]
      rfl
    | true =>
      rw [(hspec.done hok).1, hinit.contents src]
      rfl

/-! ## Any run -/

/-- Each list is the sequence of the items added to it, and the next call keeps it so: one that
fails changes nothing, and a clone that fails has freed the copies that it made, each once. -/
structure Lists.Refines (s : Lists) : Prop where
  count_le : ∀ i, listCount (s.list i) ≤ listCapacity (s.list i)
  count : ∀ i, (listCount (s.list i)).toNat = (s.added i).length
  contents : ∀ i, (s.list i).contents = s.added i
  get : ∀ i index, (listGet (s.list i) index).map (s.list i).itemAt = (s.added i)[index.toNat]?
  getConst : ∀ i index,
    (listGetConst (s.list i) index).map (s.list i).itemAt = (s.added i)[index.toNat]?
  reserve : ∀ i memory required, (s.list i).Fits required.toNat →
    ∃ ok list', listReserve memory (s.list i) required = some (ok, list') ∧
      (ok = false → list' = s.list i) ∧
      (ok = true → required ≤ listCapacity list' ∧ list'.contents = s.added i)
  add : ∀ i memory item copyFunc,
    (item ≠ none → (s.list i).Fits ((s.list i).count.toNat + 1)) →
    ∃ ok list', listAdd memory (s.list i) item copyFunc = some (ok, list') ∧
      (ok = false → list' = s.list i) ∧
      (ok = true → ∃ added, item = some added ∧
        list'.contents = s.added i ++ [copied (s.list i).itemSize copyFunc added])
  clone : ∀ dst src, dst ≠ src → ∀ memory copyFunc freeFunc,
    ∃ r t, listClone memory copyFunc freeFunc (s.list src) = some r ∧
      listStep s (.clone dst src memory copyFunc freeFunc) = some t ∧
      t.list dst = r.dst ∧ t.list src = s.list src ∧
      (r.ok = true →
        r.dst.contents = clonedItems (s.list src).itemSize copyFunc (s.added src) ∧
          r.freed = []) ∧
      (r.ok = false → r.dst = listInit (s.list src).itemSize ∧
        r.copied.length < (s.added src).length ∧
        r.copied =
          (clonedItems (s.list src).itemSize copyFunc (s.added src)).take r.copied.length ∧
        r.freed = if freeFunc then r.copied else [])

theorem Lists.InOrder.refines {s : Lists} (h : s.InOrder) : s.Refines where
  count_le i := UInt64.le_iff_toNat_le.mpr (h.valid i).count_le
  count i := by rw [← h.contents i, ListT.length_contents, listCount]
  contents := h.contents
  get i index := by rw [(h.valid i).get, h.contents i]
  getConst i index := by rw [← h.contents i]; exact (h.valid i).get index
  reserve i memory required hfits := by
    obtain ⟨ok, list', hreserve, hspec⟩ := (h.valid i).reserve memory hfits
    refine ⟨ok, list', hreserve, hspec.failed, fun hok => ⟨?_, ?_⟩⟩
    · exact UInt64.le_iff_toNat_le.mpr (hspec.room hok)
    · exact hspec.contents.trans (h.contents i)
  add i memory item copyFunc hfits := by
    cases item with
    | none => exact ⟨false, s.list i, rfl, fun _ => rfl, fun hok => Bool.noConfusion hok⟩
    | some item =>
      obtain ⟨ok, list', hadd, hspec⟩ :=
        (h.valid i).add memory item copyFunc (hfits (Option.some_ne_none item))
      refine ⟨ok, list', hadd, hspec.failed, fun hok => ⟨item, rfl, ?_⟩⟩
      rw [hspec.added hok, h.contents i]
  clone dst src hne memory copyFunc freeFunc := by
    obtain ⟨r, hclone, hspec⟩ := (h.valid src).clone memory copyFunc freeFunc
    have hsrc : (s.set dst (listInit (s.list src).itemSize) []).list src = s.list src :=
      Function.update_of_ne hne.symm _ _
    rw [← hsrc] at hclone
    refine ⟨r, _, hsrc ▸ hclone, congrArg (Option.map _) hclone, ?_, ?_, ?_, ?_⟩
    · exact Function.update_self _ _ _
    · exact (Function.update_of_ne hne.symm _ _).trans hsrc
    · intro hok
      rw [← h.contents src]
      exact hspec.done hok
    · intro hok
      obtain ⟨hdst, hshort, hfreed⟩ := hspec.failed hok
      rw [← h.contents src, ListT.length_contents]
      exact ⟨hdst, hshort, hspec.copied, hfreed⟩

/-- Any calls whose sizes do not wrap return, and leave lists that refine sequences. -/
theorem lists_refine (ops : List ListOp)
    (hsmall : Runs.Along listStep ListOp.Small .start ops) :
    ∃ s, Runs.run listStep .start ops = some s ∧ s.Refines := by
  obtain ⟨s, hrun, hs⟩ := Runs.run_progress Lists.InOrder listStep_inOrder lists_start_inOrder hsmall
  exact ⟨s, hrun, hs.refines⟩

/-- The second add finds the list with room for it, though no more memory can be had. -/
theorem lists_refine_cloned : ∃ s, Runs.run listStep .start
      [.init 0 1, .add 0 ⟨true, fun _ => 0⟩ (some [7]) none,
        .add 0 ⟨false, fun _ => 0⟩ (some [8]) none,
        .clone 1 0 (fun _ => ⟨true, fun _ => 0⟩) none true] = some s ∧ s.Refines ∧
    s.added 1 = [[7], [8]] := by
  obtain ⟨s, hrun, hs⟩ := lists_refine
    [.init 0 1, .add 0 ⟨true, fun _ => 0⟩ (some [7]) none,
      .add 0 ⟨false, fun _ => 0⟩ (some [8]) none,
      .clone 1 0 (fun _ => ⟨true, fun _ => 0⟩) none true] (by
    refine ⟨Nat.le_refl 1, fun t ht => ?_⟩
    obtain rfl := Option.some.inj ht
    refine ⟨fun _ => .inr ⟨0, by decide, by decide⟩, fun t ht => ?_⟩
    obtain rfl := Option.some.inj ht
    refine ⟨fun _ => .inl (by decide), fun t ht => ?_⟩
    exact ⟨trivial, fun _ _ => trivial⟩)
  refine ⟨s, hrun, hs, ?_⟩
  obtain rfl := Option.some.inj hrun
  decide

end MlinkDevice
