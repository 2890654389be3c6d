import Mathlib.Data.List.Basic
import Mathlib.Data.List.Induction
import Mathlib.Logic.Function.Basic

/-!
# Doubly linked lists on a heap

A heap of nodes with `previous` and `next` pointers, and the list of values a `head`/`tail`
pair denotes. Pointers are `Option Nat`, `none` being the null pointer; a heap access fails
on the null pointer and on a node that was never allocated or has been freed.

* **`Links cell prev ns nxt`**: the nodes `ns`, each given with its address, are linked both
  ways, the first one back to `prev` and the last one on to `nxt`.
* **`Consists l ns`**: the list `l` consists of exactly the nodes `ns` from `head` to `tail`.
* the edits `links_setNext_last`, `links_setPrevious_first` and the frame rule
  `links_update_of_notMem`, from which the effect of a list operation on `ns` is assembled.
* **`Consists.eraseFirst`**, **`eraseLast`**, **`eraseInner`**: the writes that take one node
  out of a list of several.
-/

namespace DoublyLinked

variable {α : Type*}

/-! ## The heap

Pointers are addresses or null, and cells are freed for good. To load through the null pointer or
from a cell that is not there is a fault, so that an operation that returns has used live nodes
only. -/

structure Node (α : Type*) where
  previous : Option Nat
  value : α
  next : Option Nat

/-- Why a list operation does not return. -/
inductive Fault where
  | nullPointer
  | dangling (address : Nat)
  | outOfFuel
  deriving DecidableEq, Repr

/-- Cells by address, and the next address to hand out; addresses are not reused. -/
structure Heap (α : Type*) where
  cell : Nat → Option (Node α)
  brk : Nat

namespace Heap

def empty : Heap α := { cell := fun _ => none, brk := 0 }

def load (h : Heap α) : Option Nat → Except Fault (Node α)
  | none => .error .nullPointer
  | some p =>
    match h.cell p with
    | none => .error (.dangling p)
    | some node => .ok node

def alloc (h : Heap α) (node : Node α) : Heap α :=
  { cell := Function.update h.cell h.brk (some node), brk := h.brk + 1 }

/-- Assign to fields of the node at a pointer. -/
def modify (h : Heap α) (p : Option Nat) (f : Node α → Node α) : Except Fault (Heap α) :=
  match p with
  | none => .error .nullPointer
  | some p =>
    match h.cell p with
    | none => .error (.dangling p)
    | some node => .ok { h with cell := Function.update h.cell p (some (f node)) }

def free (h : Heap α) (p : Option Nat) : Except Fault (Heap α) :=
  match p with
  | none => .error .nullPointer
  | some p =>
    match h.cell p with
    | none => .error (.dangling p)
    | some _ => .ok { h with cell := Function.update h.cell p none }

theorem load_some {h : Heap α} {p : Nat} {node : Node α} (hp : h.cell p = some node) :
    h.load (some p) = .ok node := by
  simp only [load, hp]

theorem modify_some {h : Heap α} {p : Nat} {node : Node α} (hp : h.cell p = some node)
    (f : Node α → Node α) :
    h.modify (some p) f = .ok { h with cell := Function.update h.cell p (some (f node)) } := by
  simp only [modify, hp]

theorem free_some {h : Heap α} {p : Nat} {node : Node α} (hp : h.cell p = some node) :
    h.free (some p) = .ok { h with cell := Function.update h.cell p none } := by
  simp only [free, hp]

/-- Writing one cell leaves another as it was. -/
theorem update_cell {cell : Nat → Option (Node α)} {p q : Nat} {v : Option (Node α)}
    (hne : p ≠ q) (hp : cell p = v) (w : Option (Node α)) : Function.update cell q w p = v := by
  rw [Function.update_of_ne hne]
  exact hp

end Heap

/-- A list object: its heap and its two end pointers. -/
structure DList (α : Type*) where
  heap : Heap α
  head : Option Nat
  tail : Option Nat

def DList.empty : DList α := { heap := .empty, head := none, tail := none }

/-! ## Linked nodes

The nodes of a list are given with their addresses. That they are linked is a statement about each
of them and its two neighbours, so a list can be cut anywhere and its parts looked at alone. -/

/-- Where a pointer to the first node of `ns` points, `nxt` when there is none. -/
def firstAddr (ns : List (Nat × α)) (nxt : Option Nat) : Option Nat :=
  match ns with
  | [] => nxt
  | (p, _) :: _ => some p

/-- Where a pointer to the last node of `ns` points, `prev` when there is none. -/
def lastAddr (prev : Option Nat) (ns : List (Nat × α)) : Option Nat :=
  match ns with
  | [] => prev
  | (p, _) :: rest => lastAddr (some p) rest

/-- The nodes `ns` are linked both ways, between `prev` and `nxt`. -/
def Links (cell : Nat → Option (Node α)) (prev : Option Nat) (ns : List (Nat × α))
    (nxt : Option Nat) : Prop :=
  match ns with
  | [] => True
  | (p, a) :: rest =>
    cell p = some ⟨prev, a, firstAddr rest nxt⟩ ∧ Links cell (some p) rest nxt

/-- The first of two parts, unless it is empty. -/
theorem firstAddr_append (xs ys : List (Nat × α)) (nxt : Option Nat) :
    firstAddr (xs ++ ys) nxt = firstAddr xs (firstAddr ys nxt) := by
  cases xs <;> rfl

theorem lastAddr_append (prev : Option Nat) (xs ys : List (Nat × α)) :
    lastAddr prev (xs ++ ys) = lastAddr (lastAddr prev xs) ys := by
  induction xs generalizing prev with
  | nil => rfl
  | cons x rest ih => exact ih (some x.1)

/-- Linked nodes split anywhere: each half sees the other's nearest node. -/
theorem links_append {cell : Nat → Option (Node α)} (prev : Option Nat) (xs ys : List (Nat × α))
    (nxt : Option Nat) :
    Links cell prev (xs ++ ys) nxt
      ↔ Links cell prev xs (firstAddr ys nxt) ∧ Links cell (lastAddr prev xs) ys nxt := by
  induction xs generalizing prev with
  | nil => simp [Links, lastAddr]
  | cons x rest ih =>
    obtain ⟨p, a⟩ := x
    rw [List.cons_append]
    simp only [Links, lastAddr, ih (some p), firstAddr_append, and_assoc]

/-- Only the cells of the nodes themselves matter. -/
theorem links_update_of_notMem {cell : Nat → Option (Node α)} {p : Nat} (v : Option (Node α))
    {prev : Option Nat} {ns : List (Nat × α)} {nxt : Option Nat}
    (hp : p ∉ ns.map Prod.fst) (h : Links cell prev ns nxt) :
    Links (Function.update cell p v) prev ns nxt := by
  induction ns generalizing prev with
  | nil => trivial
  | cons x rest ih =>
    obtain ⟨q, a⟩ := x
    rw [List.map_cons, List.mem_cons, not_or] at hp
    refine ⟨?_, ih hp.2 h.2⟩
    rw [Function.update_of_ne (Ne.symm hp.1)]
    exact h.1

/-- Redirect the last node of linked nodes. -/
theorem links_setNext_last {cell : Nat → Option (Node α)} {prev : Option Nat}
    {ns : List (Nat × α)} {q : Nat} {b : α} {nxt : Option Nat} (nxt' : Option Nat)
    (hnodup : ((ns ++ [(q, b)]).map Prod.fst).Nodup)
    (h : Links cell prev (ns ++ [(q, b)]) nxt) :
    Links (Function.update cell q (some ⟨lastAddr prev ns, b, nxt'⟩)) prev (ns ++ [(q, b)])
      nxt' := by
  rw [List.map_append, List.nodup_append] at hnodup
  have hq : q ∉ ns.map Prod.fst := fun hmem =>
    hnodup.2.2 q hmem q (by simp) rfl
  rw [links_append] at h ⊢
  refine ⟨links_update_of_notMem _ hq h.1, ?_, trivial⟩
  rw [Function.update_self]
  rfl

/-- Redirect the first node of linked nodes. -/
theorem links_setPrevious_first {cell : Nat → Option (Node α)} {prev : Option Nat}
    {ns : List (Nat × α)} {q : Nat} {b : α} {nxt : Option Nat} (prev' : Option Nat)
    (hnodup : (((q, b) :: ns).map Prod.fst).Nodup) (h : Links cell prev ((q, b) :: ns) nxt) :
    Links (Function.update cell q (some ⟨prev', b, firstAddr ns nxt⟩)) prev' ((q, b) :: ns)
      nxt := by
  rw [List.map_cons, List.nodup_cons] at hnodup
  refine ⟨?_, links_update_of_notMem _ hnodup.1 h.2⟩
  rw [Function.update_self]

/-! ## Lists

Three ways to say what a list object is: with the addresses of its nodes, with their values only,
and with the values and the promise that no other node is left in its heap. -/

/-- The list `l` consists of exactly the nodes `ns`, from head to tail. -/
structure Consists (l : DList α) (ns : List (Nat × α)) : Prop where
  links : Links l.heap.cell none ns none
  nodup : (ns.map Prod.fst).Nodup
  bound : ∀ p ∈ ns.map Prod.fst, p < l.heap.brk
  head : l.head = firstAddr ns none
  tail : l.tail = lastAddr none ns

/-- The list `l` denotes the values `xs`, from head to tail. -/
def Denotes (l : DList α) (xs : List α) : Prop := ∃ ns, Consists l ns ∧ ns.map Prod.snd = xs

theorem denotes_empty : Denotes (DList.empty : DList α) [] :=
  ⟨[], ⟨trivial, List.nodup_nil, by simp, rfl, rfl⟩, rfl⟩

/-- The list `l` denotes the values `xs`, and its heap holds no other node. -/
def Owns (l : DList α) (xs : List α) : Prop :=
  ∃ ns, Consists l ns ∧ ns.map Prod.snd = xs ∧ ∀ p, p ∉ ns.map Prod.fst → l.heap.cell p = none

/-- A list that owns its nodes denotes their values. -/
theorem Owns.denotes {l : DList α} {xs : List α} (h : Owns l xs) : Denotes l xs := by
  obtain ⟨ns, hns, hxs, -⟩ := h
  exact ⟨ns, hns, hxs⟩

/-- The empty heap holds no other node. -/
theorem owns_empty : Owns (DList.empty : DList α) [] :=
  ⟨[], ⟨trivial, List.nodup_nil, by simp, rfl, rfl⟩, rfl, fun _ _ => rfl⟩

/-! ## Taking a node out

The program takes a node out by cases: the first node, the last one, or one with two neighbours. In
each the neighbours are linked first and then the cell is freed. -/

section Erase

variable {l : DList α} {pre post : List (Nat × α)} {p q r : Nat} {a b c : α}

/-- A node of the list sees its two neighbours, and they see it. -/
theorem Consists.node (h : Consists l (pre ++ (p, a) :: post)) :
    Links l.heap.cell none pre (some p)
      ∧ l.heap.cell p = some ⟨lastAddr none pre, a, firstAddr post none⟩
      ∧ Links l.heap.cell (some p) post none :=
  (links_append none pre ((p, a) :: post) none).mp h.links

theorem Consists.notMem (h : Consists l (pre ++ (p, a) :: post)) :
    p ∉ pre.map Prod.fst ∧ p ∉ post.map Prod.fst := by
  have hnodup := h.nodup
  rw [List.map_append, List.map_cons, List.nodup_append, List.nodup_cons] at hnodup
  exact ⟨fun hmem => hnodup.2.2 p hmem p List.mem_cons_self rfl, hnodup.2.1.1⟩

/-- The other nodes have different addresses still. -/
theorem Consists.nodup_erase (h : Consists l (pre ++ (p, a) :: post)) :
    ((pre ++ post).map Prod.fst).Nodup := by
  have hnodup := h.nodup
  rw [List.map_append, List.map_cons, List.nodup_append, List.nodup_cons] at hnodup
  rw [List.map_append, List.nodup_append]
  exact ⟨hnodup.1, hnodup.2.1.2, fun x hx y hy => hnodup.2.2 x hx y (List.mem_cons_of_mem _ hy)⟩

/-- The other nodes, once they are linked among themselves. -/
theorem Consists.erase (h : Consists l (pre ++ (p, a) :: post)) {cell : Nat → Option (Node α)}
    {head tail : Option Nat} (hlinks : Links cell none (pre ++ post) none)
    (hhead : head = firstAddr (pre ++ post) none) (htail : tail = lastAddr none (pre ++ post)) :
    Consists ⟨⟨cell, l.heap.brk⟩, head, tail⟩ (pre ++ post) where
  links := hlinks
  nodup := h.nodup_erase
  bound x hx := by
    refine h.bound x ?_
    rw [List.map_append, List.mem_append] at hx ⊢
    exact hx.imp_right (List.mem_cons_of_mem p)
  head := hhead
  tail := htail

theorem Consists.eraseFirst (h : Consists l ((p, a) :: (q, b) :: post)) :
    Consists ⟨⟨Function.update (Function.update l.heap.cell q
      (some ⟨none, b, firstAddr post none⟩)) p none, l.heap.brk⟩, some q, l.tail⟩
      ((q, b) :: post) := by
  have h' : Consists l ([] ++ (p, a) :: (q, b) :: post) := h
  have hlinks := links_setPrevious_first none h'.nodup_erase h.links.2
  exact h'.erase (links_update_of_notMem none h'.notMem.2 hlinks) rfl h.tail

theorem Consists.eraseLast (h : Consists l ((pre ++ [(r, c)]) ++ [(p, a)])) :
    Consists ⟨⟨Function.update (Function.update l.heap.cell r
      (some ⟨lastAddr none pre, c, none⟩)) p none, l.heap.brk⟩, l.head, some r⟩
      (pre ++ [(r, c)]) := by
  have hp := h.notMem.1
  have hnodup := h.nodup_erase
  rw [List.append_nil] at hnodup
  have hlinks := links_update_of_notMem none hp (links_setNext_last none hnodup h.node.1)
  have hhead : l.head = firstAddr ((pre ++ [(r, c)]) ++ []) none := by
    rw [h.head]
    cases pre <;> rfl
  have htail : some r = lastAddr none ((pre ++ [(r, c)]) ++ []) := by
    rw [List.append_nil, lastAddr_append]
    rfl
  have herase := h.erase (by rw [List.append_nil]; exact hlinks) hhead htail
  rw [List.append_nil] at herase
  exact herase

theorem Consists.eraseInner (h : Consists l ((pre ++ [(r, c)]) ++ (p, a) :: (q, b) :: post)) :
    Consists ⟨⟨Function.update (Function.update (Function.update l.heap.cell q
      (some ⟨some r, b, firstAddr post none⟩)) r (some ⟨lastAddr none pre, c, some q⟩)) p none,
      l.heap.brk⟩, l.head, l.tail⟩ ((pre ++ [(r, c)]) ++ (q, b) :: post) := by
  obtain ⟨hpre, -, hpost⟩ := h.node
  obtain ⟨hppre, hppost⟩ := h.notMem
  have hnodup := h.nodup_erase
  rw [List.map_append, List.nodup_append] at hnodup
  obtain ⟨hnpre, hnpost, hdisj⟩ := hnodup
  have hqpre : q ∉ (pre ++ [(r, c)]).map Prod.fst := fun hmem => hdisj q hmem q (by simp) rfl
  have hrpost : r ∉ ((q, b) :: post).map Prod.fst := fun hmem => hdisj r (by simp) r hmem rfl
  have hprev : lastAddr none (pre ++ [(r, c)]) = some r := by rw [lastAddr_append]; rfl
  -- each half has one end redirected, and is left alone by the write to the other's end
  have hfront := links_setNext_last (some q) hnpre
    (links_update_of_notMem (some ⟨some r, b, firstAddr post none⟩) hqpre hpre)
  have hback := links_update_of_notMem (some ⟨lastAddr none pre, c, some q⟩) hrpost
    (links_setPrevious_first (some r) hnpost hpost)
  refine h.erase ((links_append _ _ _ _).mpr ⟨links_update_of_notMem none hppre hfront, ?_⟩) ?_ ?_
  · rw [hprev]
    exact links_update_of_notMem none hppost hback
  · rw [h.head]
    cases pre <;> rfl
  · rw [h.tail, lastAddr_append none (pre ++ [(r, c)]), lastAddr_append none (pre ++ [(r, c)])]
    rfl

end Erase

/-- Values read from a pointer along `next` until the null pointer. -/
inductive Forward (cell : Nat → Option (Node α)) : Option Nat → List α → Prop where
  | nil : Forward cell none []
  | cons {p : Nat} {node : Node α} {xs : List α} (hp : cell p = some node)
      (h : Forward cell node.next xs) : Forward cell (some p) (node.value :: xs)

/-- Values read from a pointer along `previous` until the null pointer. -/
inductive Backward (cell : Nat → Option (Node α)) : Option Nat → List α → Prop where
  | nil : Backward cell none []
  | cons {p : Nat} {node : Node α} {xs : List α} (hp : cell p = some node)
      (h : Backward cell node.previous xs) : Backward cell (some p) (node.value :: xs)

/-- Linked nodes are read along `next`. -/
theorem forward_of_links {cell : Nat → Option (Node α)} {ns : List (Nat × α)} :
    ∀ {prev : Option Nat}, Links cell prev ns none →
      Forward cell (firstAddr ns none) (ns.map Prod.snd) := by
  induction ns with
  | nil => exact fun _ => .nil
  | cons x rest ih =>
    obtain ⟨p, a⟩ := x
    exact fun h => .cons h.1 (ih h.2)

/-- And along `previous`, in the other order. -/
theorem backward_of_links {cell : Nat → Option (Node α)} {ns : List (Nat × α)} :
    ∀ {nxt : Option Nat}, Links cell none ns nxt →
      Backward cell (lastAddr none ns) (ns.map Prod.snd).reverse := by
  induction ns using List.reverseRecOn with
  | nil => exact fun _ => .nil
  | append_singleton init x ih =>
    obtain ⟨p, a⟩ := x
    intro nxt h
    rw [links_append] at h
    rw [lastAddr_append, List.map_append, List.reverse_append]
    exact .cons h.2.1 (ih h.1)

/-- A denoted list reads the same from either end. -/
theorem Denotes.forward_backward {l : DList α} {xs : List α} (h : Denotes l xs) :
    Forward l.heap.cell l.head xs ∧ Backward l.heap.cell l.tail xs.reverse := by
  obtain ⟨ns, hrepr, rfl⟩ := h
  rw [hrepr.head, hrepr.tail]
  exact ⟨forward_of_links hrepr.links, backward_of_links hrepr.links⟩

/-- A pointer is read in one way only. -/
theorem Forward.unique {cell : Nat → Option (Node α)} {start : Option Nat} {xs ys : List α}
    (hx : Forward cell start xs) (hy : Forward cell start ys) : xs = ys := by
  induction hx generalizing ys with
  | nil =>
    cases hy
    rfl
  | cons hp _ ih =>
    cases hy with
    | cons hp' hrest =>
      rw [hp] at hp'
      cases hp'
      rw [ih hrest]

/-- A list denotes one list of values. -/
theorem Denotes.unique {l : DList α} {xs ys : List α} (hx : Denotes l xs) (hy : Denotes l ys) :
    xs = ys :=
  hx.forward_backward.1.unique hy.forward_backward.1

end DoublyLinked
