import Mathlib.Data.List.Nodup
import Mathlib.Logic.Function.Basic

/-!
# A linked queue

Nodes in a heap, each with the address of the next one, and a pointer to both ends. The
queue holds a list when the nodes from its head are those of the list.
-/

namespace MlinkDevice.LinkedQueue

variable {α : Type*}

abbrev Addr := ℕ

structure Node (α : Type*) where
  item : α
  next : Option Addr

abbrev Heap (α : Type*) := Addr → Option (Node α)

structure Queue (α : Type*) where
  heap : Heap α
  head : Option Addr
  tail : Option Addr

namespace Queue

def empty : Queue α := ⟨fun _ => none, none, none⟩

/-- Appends a node that was not in use. -/
def push (q : Queue α) (a : Addr) (x : α) : Queue α :=
  let heap := Function.update q.heap a (some ⟨x, none⟩)
  match q.tail with
  | some last =>
    { heap := Function.update heap last ((heap last).map fun node => { node with next := some a })
      head := q.head
      tail := some a }
  | none => { heap, head := some a, tail := some a }

/-- Unlinks the node at the head, which stays in the heap. -/
def pop (q : Queue α) : Option (Addr × Queue α) :=
  q.head.bind fun a => (q.heap a).map fun node =>
    (a, { q with head := node.next, tail := if node.next = none then none else q.tail })

def free (q : Queue α) (a : Addr) : Queue α := { q with heap := Function.update q.heap a none }

end Queue

/-- The loop that frees the nodes one after the other, when these are their addresses. -/
def freeAll (heap : Heap α) : Option Addr → List Addr → Option (Heap α)
  | none, [] => some heap
  | some a, b :: rest =>
    if a = b then (heap a).bind fun node => freeAll (Function.update heap a none) node.next rest
    else none
  | _, _ => none

/-- The walk from that node to the one without a next, over at most that many nodes. -/
def findTail (heap : Heap α) : ℕ → Addr → Option Addr
  | 0, _ => none
  | fuel + 1, a => (heap a).bind fun node => match node.next with
    | none => some a
    | some next => findTail heap fuel next

/-! ## What a queue holds -/

/-- From that address on, the nodes are those of the list. -/
def Chain (heap : Heap α) : Option Addr → List (Addr × α) → Prop
  | head, [] => head = none
  | head, (a, x) :: rest => head = some a ∧ ∃ next, heap a = some ⟨x, next⟩ ∧ Chain heap next rest

def lastAddr (nodes : List (Addr × α)) : Option Addr := nodes.getLast?.map (·.1)

structure Queue.Holds (q : Queue α) (nodes : List (Addr × α)) : Prop where
  chain : Chain q.heap q.head nodes
  tail_eq : q.tail = lastAddr nodes
  nodup : (nodes.map (·.1)).Nodup

theorem holds_empty : (Queue.empty : Queue α).Holds [] where
  chain := rfl
  tail_eq := rfl
  nodup := List.nodup_nil

theorem Chain.frame {heap heap' : Heap α} {head : Option Addr} {nodes : List (Addr × α)}
    (h : Chain heap head nodes) (hsame : ∀ a ∈ nodes.map (·.1), heap' a = heap a) :
    Chain heap' head nodes := by
  induction nodes generalizing head with
  | nil => exact h
  | cons node rest ih =>
    obtain ⟨hhead, next, hnode, hrest⟩ := h
    refine ⟨hhead, next, by rw [hsame _ List.mem_cons_self, hnode], ih hrest fun a ha => ?_⟩
    exact hsame a (List.mem_cons_of_mem _ ha)

theorem Chain.update {heap : Heap α} {head : Option Addr} {nodes : List (Addr × α)}
    (h : Chain heap head nodes) {a : Addr} (ha : a ∉ nodes.map (·.1)) (v : Option (Node α)) :
    Chain (Function.update heap a v) head nodes := by
  refine h.frame fun b hb => ?_
  have hne : b ≠ a := by
    rintro rfl
    exact ha hb
  rw [Function.update_of_ne hne]

theorem Chain.mem {heap : Heap α} {head : Option Addr} {nodes : List (Addr × α)}
    (h : Chain heap head nodes) {a : Addr} (ha : a ∈ nodes.map (·.1)) : (heap a).isSome := by
  induction nodes generalizing head with
  | nil => exact absurd ha List.not_mem_nil
  | cons node rest ih =>
    obtain ⟨-, next, hnode, hrest⟩ := h
    rcases List.mem_cons.mp ha with rfl | ha
    · rw [hnode]
      rfl
    · exact ih hrest ha

theorem Chain.head_eq {heap : Heap α} {head : Option Addr} {nodes : List (Addr × α)}
    (h : Chain heap head nodes) : head = nodes.head?.map (·.1) := by
  cases nodes with
  | nil => exact h
  | cons node rest => exact h.1

theorem lastAddr_concat (nodes : List (Addr × α)) (node : Addr × α) :
    lastAddr (nodes ++ [node]) = some node.1 := by
  simp [lastAddr]

theorem lastAddr_cons_cons (first second : Addr × α) (rest : List (Addr × α)) :
    lastAddr (first :: second :: rest) = lastAddr (second :: rest) := by
  simp [lastAddr, List.getLast?_cons_cons]

theorem lastAddr_mem {nodes : List (Addr × α)} {a : Addr} (h : lastAddr nodes = some a) :
    a ∈ nodes.map (·.1) := by
  obtain ⟨node, hnode, rfl⟩ := Option.map_eq_some_iff.mp h
  exact List.mem_map_of_mem (List.mem_of_getLast? hnode)

theorem lastAddr_eq_none {nodes : List (Addr × α)} : lastAddr nodes = none ↔ nodes = [] := by
  unfold lastAddr
  rw [Option.map_eq_none_iff, List.getLast?_eq_none_iff]

theorem Chain.findTail {heap : Heap α} {a : Addr} {nodes : List (Addr × α)} {fuel : ℕ}
    (h : Chain heap (some a) nodes) (hfuel : nodes.length ≤ fuel) :
    findTail heap fuel a = lastAddr nodes := by
  induction nodes generalizing a fuel with
  | nil => exact absurd h (Option.some_ne_none a)
  | cons node rest ih =>
    obtain ⟨hhead, next, hnode, hrest⟩ := h
    obtain rfl := Option.some.inj hhead
    cases fuel with
    | zero => exact absurd hfuel (Nat.not_succ_le_zero _)
    | succ fuel =>
      rw [LinkedQueue.findTail, hnode, Option.bind_some]
      rcases rest with _ | ⟨second, rest⟩
      · obtain rfl : next = none := hrest
        rfl
      · obtain rfl : next = some second.1 := hrest.1
        rw [lastAddr_cons_cons]
        exact ih hrest (Nat.le_of_succ_le_succ hfuel)

theorem Chain.link {heap : Heap α} {head : Option Addr} {nodes : List (Addr × α)} {last a : Addr}
    {x : α} (h : Chain heap head nodes) (hnodup : (nodes.map (·.1)).Nodup)
    (hlast : lastAddr nodes = some last) (hfresh : a ∉ nodes.map (·.1))
    (ha : heap a = some ⟨x, none⟩) :
    Chain (Function.update heap last ((heap last).map fun node => { node with next := some a }))
      head (nodes ++ [(a, x)]) := by
  induction nodes generalizing head with
  | nil => exact absurd hlast.symm (Option.some_ne_none last)
  | cons node rest ih =>
    obtain ⟨hhead, next, hnode, hrest⟩ := h
    rw [List.map_cons, List.nodup_cons] at hnodup
    rcases rest with _ | ⟨second, rest⟩
    · obtain rfl : node.1 = last := Option.some.inj hlast
      have hne : a ≠ node.1 := by simpa using hfresh
      refine ⟨hhead, some a, ?_, rfl, none, ?_, rfl⟩
      · rw [Function.update_self, hnode, Option.map_some]
      · rw [Function.update_of_ne hne, ha]
    · rw [lastAddr_cons_cons] at hlast
      have hne : node.1 ≠ last := by
        rintro rfl
        exact hnodup.1 (lastAddr_mem hlast)
      refine ⟨hhead, next, by rw [Function.update_of_ne hne, hnode], ?_⟩
      exact ih hrest hnodup.2 hlast fun hmem => hfresh (List.mem_cons_of_mem _ hmem)

/-! ## The operations -/

namespace Queue

variable {q : Queue α} {nodes : List (Addr × α)}

theorem Holds.push (h : q.Holds nodes) {a : Addr} (hfresh : q.heap a = none) (x : α) :
    (q.push a x).Holds (nodes ++ [(a, x)]) := by
  have hnew : a ∉ nodes.map (·.1) := by
    intro hmem
    have := h.chain.mem hmem
    rw [hfresh] at this
    exact Bool.noConfusion this
  have hchain := h.chain.update hnew (some ⟨x, none⟩)
  have hnodup : ((nodes ++ [(a, x)]).map (·.1)).Nodup := by
    rw [List.map_append, List.nodup_append]
    refine ⟨h.nodup, List.nodup_singleton a, fun b hb c hc => ?_⟩
    obtain rfl : c = a := by simpa using hc
    rintro rfl
    exact hnew hb
  have htail := h.tail_eq
  unfold Queue.push
  cases hlast : q.tail with
  | some last =>
    rw [hlast] at htail
    refine ⟨?_, (lastAddr_concat nodes (a, x)).symm, hnodup⟩
    exact hchain.link h.nodup htail.symm hnew (Function.update_self ..)
  | none =>
    rw [hlast] at htail
    obtain rfl := lastAddr_eq_none.mp htail.symm
    exact ⟨⟨rfl, none, Function.update_self .., rfl⟩, rfl, hnodup⟩

theorem push_heap_none {b : Addr} (hb : q.heap b = none) {a : Addr} (hne : b ≠ a) (x : α) :
    (q.push a x).heap b = none := by
  have hupdate : Function.update q.heap a (some ⟨x, none⟩) b = none := by
    rw [Function.update_of_ne hne, hb]
  unfold Queue.push
  cases q.tail with
  | none => exact hupdate
  | some last =>
    dsimp only
    by_cases hlast : b = last
    · rw [← hlast, Function.update_self, hupdate, Option.map_none]
    · rw [Function.update_of_ne hlast, hupdate]

theorem push_heap_of_ne (h : q.Holds nodes) {a b : Addr} (x : α) (hne : b ≠ a)
    (hb : b ∉ nodes.map (·.1)) : (q.push a x).heap b = q.heap b := by
  have htail := h.tail_eq
  unfold Queue.push
  cases hlast : q.tail with
  | some last =>
    have hlast : b ≠ last := by
      rintro rfl
      exact hb (lastAddr_mem (htail.symm.trans hlast))
    simp only [Function.update_of_ne hlast, Function.update_of_ne hne]
  | none => simp only [Function.update_of_ne hne]

theorem Holds.pop_nil (h : q.Holds []) : q.pop = none := by
  rw [Queue.pop, h.chain.head_eq]
  rfl

theorem Holds.pop_cons {a : Addr} {x : α} (h : q.Holds ((a, x) :: nodes)) :
    ∃ q', q.pop = some (a, q') ∧ q'.Holds nodes ∧ q'.heap = q.heap ∧
      (∃ next, q.heap a = some ⟨x, next⟩) ∧ a ∉ nodes.map (·.1) := by
  obtain ⟨hhead, next, hnode, hrest⟩ := h.chain
  have hnodup := List.nodup_cons.mp h.nodup
  have hpop : q.pop = some (a, { q with
      head := next, tail := if next = none then none else q.tail }) := by
    rw [Queue.pop, hhead, Option.bind_some, hnode]
    rfl
  refine ⟨_, hpop, ⟨hrest, ?_, hnodup.2⟩, rfl, ⟨next, hnode⟩, hnodup.1⟩
  rcases nodes with _ | ⟨second, rest⟩
  · rw [show next = none from hrest]
    rfl
  · have hnext : next = some second.1 := hrest.1
    rw [if_neg (by simp [hnext]), h.tail_eq, lastAddr_cons_cons]

theorem Holds.free (h : q.Holds nodes) {a : Addr} (ha : a ∉ nodes.map (·.1)) :
    (q.free a).Holds nodes where
  chain := h.chain.update ha none
  tail_eq := h.tail_eq
  nodup := h.nodup

theorem Holds.freeAll_nil (h : q.Holds []) {addrs : List Addr} {heap : Heap α}
    (hfree : freeAll q.heap q.head addrs = some heap) : addrs = [] ∧ heap = q.heap := by
  rw [h.chain.head_eq] at hfree
  cases addrs with
  | nil => exact ⟨rfl, (Option.some.inj hfree).symm⟩
  | cons a rest => exact absurd hfree.symm (Option.some_ne_none heap)

end Queue

end MlinkDevice.LinkedQueue
