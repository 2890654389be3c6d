import OsLab.Lib.DoublyLinked
import OsLab.Lib.Fallible

/-!
# OsLab — the NODE lists

`LinkedList` (the page history), `MsgList` and `ConnectionList` are the same doubly linked
list with a different payload in `NODE`, and their member functions repeat the same
statements. Those statements are here once, over any payload:

* `pushNode` is the body of `LinkedList::AddToHead`, `MsgList::Put` and
  `ConnectionList::Add`;
* `dropTail` is the block guarded by `Tail->Previous != NULL` in `LinkedList::RemoveTail`,
  `MsgList::Get` and `ConnectionList::RemoveTail`: a sole node is left in place;
* `removeNode` is `LinkedList::Remove` and `ConnectionList::Remove`, whose loop stays on the
  tail for ever when no node matches;
* `destroyNodes` is the body of `~LinkedList`, `~MsgList` and `~ConnectionList`.

Each comes with the lemma that says what it does to the denoted values.
-/

namespace OsLab

open DoublyLinked Fallible

variable {α : Type}

/-! ## The statements

The two projects have the same list, statement for statement, with other payloads. Every assignment
through a pointer is one access to the heap, in the order of the source, so that an access through a
null pointer or to a deleted node is seen where it happens. -/

/-- `NODE *tmp = new NODE; …; tmp->Next = Head; if (Head != NULL) Head->Previous = tmp;
if (Tail == NULL) Tail = tmp; Head = tmp;` -/
def pushNode (l : DList α) (value : α) : Except Fault (DList α) := do
  let tmp := l.heap.brk
  let heap := l.heap.alloc { previous := none, value, next := l.head }
  let heap ← if l.head = none then .ok heap
    else heap.modify l.head fun node => { node with previous := some tmp }
  .ok { heap, head := some tmp, tail := if l.tail = none then some tmp else l.tail }

/-- `NODE *tmp = Tail; if (Tail->Previous != NULL) { Tail = Tail->Previous;
Tail->Next = NULL; delete tmp; }` -/
def dropTail (l : DList α) : Except Fault (DList α) := do
  let node ← l.heap.load l.tail
  if node.previous = none then .ok l
  else
    let heap ← l.heap.modify node.previous fun node => { node with next := none }
    let heap ← heap.free l.tail
    .ok { l with heap, tail := node.previous }

/-- What `Remove` does with the node `tmp` it has found, `node` being its fields. -/
def unlinkNode (l : DList α) (tmp : Option Nat) (node : Node α) : Except Fault (DList α) := do
  if node.previous ≠ none then
    if node.next ≠ none then
      let heap ← l.heap.modify node.next fun next => { next with previous := node.previous }
      let heap ← heap.modify node.previous fun previous => { previous with next := node.next }
      let heap ← heap.free tmp
      .ok { l with heap }
    else
      let heap ← l.heap.modify node.previous fun previous => { previous with next := none }
      let heap ← heap.free tmp
      .ok { l with heap, tail := node.previous }
  else
    -- `Head = tmp->Next; Head->Previous = NULL;` with no test of the new head
    let heap ← l.heap.modify node.next fun next => { next with previous := none }
    let heap ← heap.free tmp
    .ok { l with heap, head := node.next }

/-- The `do … while (tmp != NULL)` of `Remove`. `tmp` only advances while there is a next
node, so it never becomes null. -/
def removeLoop (found : α → Bool) (l : DList α) : Nat → Option Nat → Except Fault (DList α)
  | 0, _ => .error .outOfFuel
  | fuel + 1, tmp => do
    let node ← l.heap.load tmp
    if found node.value then unlinkNode l tmp node
    else removeLoop found l fuel (if node.next ≠ none then node.next else tmp)

/-- `Remove`: unlink the first node whose payload matches, nothing on the empty list. -/
def removeNode (found : α → Bool) (fuel : Nat) (l : DList α) : Except Fault (DList α) :=
  if l.head = none then .ok l else removeLoop found l fuel l.head

/-- `while (Head->Next != NULL) { Tail = Head; Head = Head->Next; delete Tail; }`: the nodes
deleted, in order, and the list afterwards. -/
def destroyLoop : Nat → DList α → Except Fault (List Nat × DList α)
  | 0, _ => .error .outOfFuel
  | fuel + 1, l => do
    let node ← l.heap.load l.head
    if node.next ≠ none then
      let heap ← l.heap.free l.head
      let (deleted, l') ← destroyLoop fuel { heap, head := node.next, tail := l.head }
      .ok (l.head.toList ++ deleted, l')
    else
      .ok ([], l)

/-- `if (Head != NULL) { while … delete Head; }` -/
def destroyNodes (fuel : Nat) (l : DList α) : Except Fault (List Nat × DList α) :=
  if l.head ≠ none then do
    let (deleted, l') ← destroyLoop fuel l
    let heap ← l'.heap.free l'.head
    .ok (deleted ++ l'.head.toList, { l' with heap })
  else
    .ok ([], l)

/-! ## Adding at the head

The new node is linked to the old head, which may be null; on the empty list it is the tail as well.
-/

/-- The new node is the first of the list, and only nodes of the list are written. -/
theorem pushNode_consists {l : DList α} {ns : List (Nat × α)} (h : Consists l ns) (a : α) :
    ∃ l', pushNode l a = .ok l' ∧ Consists l' ((l.heap.brk, a) :: ns)
      ∧ ∀ p, p ∉ ((l.heap.brk, a) :: ns).map Prod.fst → l'.heap.cell p = l.heap.cell p := by
  obtain ⟨hlinks, hnodup, hbound, hhead, htail⟩ := h
  -- the fresh address is not one of the list
  have hfresh : l.heap.brk ∉ ns.map Prod.fst := fun hmem => absurd (hbound _ hmem) (by omega)
  have hnodup' : (((l.heap.brk, a) :: ns).map Prod.fst).Nodup := List.nodup_cons.mpr ⟨hfresh, hnodup⟩
  cases ns with
  | nil =>
    have hhead' : l.head = none := hhead
    have htail' : l.tail = none := htail
    refine ⟨⟨l.heap.alloc ⟨none, a, none⟩, some l.heap.brk, some l.heap.brk⟩, ?_,
      ⟨?_, hnodup', ?_, rfl, rfl⟩, fun p hp => ?_⟩
    · simp only [pushNode, hhead', htail', if_true]
      rfl
    · exact ⟨Function.update_self _ _ _, trivial⟩
    · simp [Heap.alloc]
    · exact Heap.update_cell (by simpa using hp) rfl _
  | cons x rest =>
    obtain ⟨q, b⟩ := x
    have hhead' : l.head = some q := hhead
    have htail' : l.tail ≠ none := by
      rw [htail]
      have hsome : ∀ (ms : List (Nat × α)) (p : Nat), lastAddr (some p) ms ≠ none := by
        intro ms
        induction ms with
        | nil => exact fun p h => by cases h
        | cons m _ ih => exact fun _ => ih m.1
      exact hsome rest q
    have hqne : q ≠ l.heap.brk := fun heq => hfresh (by simp [heq])
    have hcell : (l.heap.alloc ⟨none, a, some q⟩).cell q = some ⟨none, b, firstAddr rest none⟩ := by
      show Function.update l.heap.cell l.heap.brk _ q = _
      rw [Function.update_of_ne hqne]
      exact hlinks.1
    refine ⟨⟨⟨Function.update (Function.update l.heap.cell l.heap.brk (some ⟨none, a, some q⟩)) q
        (some ⟨some l.heap.brk, b, firstAddr rest none⟩), l.heap.brk + 1⟩, some l.heap.brk, l.tail⟩,
      ?_, ⟨⟨?_, ?_⟩, hnodup', ?_, rfl, htail⟩, fun p hp => ?_⟩
    · simp only [pushNode, hhead', htail', if_false, reduceCtorEq]
      rw [Heap.modify_some hcell]
      rfl
    · show Function.update _ q _ l.heap.brk = _
      rw [Function.update_of_ne (Ne.symm hqne), Function.update_self]
      rfl
    · exact links_setPrevious_first _ hnodup (links_update_of_notMem _ hfresh hlinks)
    · intro p hp
      rcases List.mem_cons.mp hp with rfl | hp
      · exact Nat.lt_succ_self _
      · exact Nat.lt_succ_of_lt (hbound p hp)
    · rw [List.map_cons, List.map_cons, List.mem_cons, List.mem_cons, not_or, not_or] at hp
      exact Heap.update_cell hp.2.1 (Heap.update_cell hp.1 rfl _) _

theorem pushNode_denotes {l : DList α} {xs : List α} (h : Denotes l xs) (a : α) :
    ∃ l', pushNode l a = .ok l' ∧ Denotes l' (a :: xs) := by
  obtain ⟨ns, hns, rfl⟩ := h
  obtain ⟨l', hpush, hns', -⟩ := pushNode_consists hns a
  exact ⟨l', hpush, _, hns', rfl⟩

/-- The new node is the only one that has been added to the heap. -/
theorem pushNode_owns {l : DList α} {xs : List α} (h : Owns l xs) (a : α) :
    ∃ l', pushNode l a = .ok l' ∧ Owns l' (a :: xs) := by
  obtain ⟨ns, hns, rfl, hothers⟩ := h
  obtain ⟨l', hpush, hns', hframe⟩ := pushNode_consists hns a
  refine ⟨l', hpush, _, hns', rfl, fun p hp => ?_⟩
  rw [hframe p hp]
  exact hothers p fun hmem => hp (List.mem_cons_of_mem _ hmem)

/-! ## Dropping the tail

The test is on the node before the tail. So the tail of two nodes or more is dropped, a sole node
stays where it is, and on the empty list the statement is not reached. -/

/-- The tail node carries the last value. -/
theorem load_tail {l : DList α} {xs : List α} {a : α} (h : Denotes l (xs ++ [a])) :
    ∃ node, l.heap.load l.tail = .ok node ∧ node.value = a := by
  obtain ⟨ns, ⟨hlinks, -, -, -, htail⟩, hval⟩ := h
  obtain ⟨init, last, rfl, -, hlast⟩ := List.map_eq_append_iff.mp hval
  obtain ⟨x, rfl, rfl⟩ : ∃ x : Nat × α, last = [x] ∧ x.2 = a := by
    cases last with
    | nil => simp at hlast
    | cons x rest =>
      cases rest with
      | nil => exact ⟨x, rfl, by simpa using hlast⟩
      | cons y rest => simp at hlast
  rw [links_append] at hlinks
  rw [htail, lastAddr_append]
  exact ⟨_, Heap.load_some hlinks.2.1, rfl⟩

/-- The tail node has no previous one exactly if it is the only one. -/
theorem tail_previous_iff {l : DList α} {xs : List α} {a : α} {node : Node α}
    (h : Denotes l (xs ++ [a])) (hload : l.heap.load l.tail = .ok node) :
    node.previous = none ↔ xs = [] := by
  obtain ⟨ns, ⟨hlinks, -, -, -, htail⟩, hval⟩ := h
  obtain ⟨init, last, rfl, hinit, hlast⟩ := List.map_eq_append_iff.mp hval
  obtain ⟨x, rfl, -⟩ := List.map_eq_singleton_iff.mp hlast
  rw [links_append] at hlinks
  rw [htail, lastAddr_append] at hload
  have hcell : l.heap.load (some x.1) = .ok ⟨lastAddr none init, x.2, none⟩ :=
    Heap.load_some hlinks.2.1
  obtain rfl : _ = node := Except.ok.inj (hcell.symm.trans hload)
  show lastAddr none init = none ↔ _
  rw [← hinit, List.map_eq_nil_iff]
  induction init using List.reverseRecOn with
  | nil => exact iff_of_true rfl rfl
  | append_singleton init y _ =>
    rw [lastAddr_append]
    exact iff_of_false (by simp [lastAddr]) (by simp)

/-- The node before the tail becomes the last one, the tail is freed, and no node of another list
is written. -/
theorem dropTail_consists {l : DList α} {pre : List (Nat × α)} {p q : Nat} {a b : α}
    (h : Consists l ((pre ++ [(q, b)]) ++ [(p, a)])) :
    ∃ l', dropTail l = .ok l' ∧ Consists l' (pre ++ [(q, b)]) ∧ l'.heap.cell p = none
      ∧ ∀ r, r ≠ p → r ≠ q → l'.heap.cell r = l.heap.cell r := by
  obtain ⟨hfront, hcellp, -⟩ := h.node
  -- the tail is freed after the node before it has been written
  have hpq : p ≠ q := fun heq => h.notMem.1 (by simp [heq])
  have hcellq := ((links_append none pre [(q, b)] (some p)).mp hfront).2.1
  have htail : l.tail = some p := by
    rw [h.tail, lastAddr_append]
    rfl
  rw [lastAddr_append] at hcellp
  refine ⟨_, ?_, h.eraseLast, Function.update_self _ _ _, fun r hrp hrq => ?_⟩
  · have hload : l.heap.load l.tail = .ok ⟨some q, a, none⟩ := by
      rw [htail]
      exact Heap.load_some hcellp
    simp only [dropTail, hload, ok_bind, reduceCtorEq, if_false, Heap.modify_some hcellq]
    rw [htail]
    show (Heap.free _ (some p) >>= _) = _
    rw [Heap.free_some (Heap.update_cell hpq hcellp _)]
    rfl
  · exact Heap.update_cell hrp (Heap.update_cell hrq rfl _) _

/-- The nodes of two last values. -/
theorem nodes_of_two_last {ns : List (Nat × α)} {xs : List α} {a b : α}
    (hval : ns.map Prod.snd = xs ++ [b, a]) :
    ∃ pre q p, ns = (pre ++ [(q, b)]) ++ [(p, a)] ∧ pre.map Prod.snd = xs := by
  obtain ⟨pre, last, rfl, hpre, hlast⟩ := List.map_eq_append_iff.mp hval
  match last, hlast with
  | [(q, _), (p, _)], hlast =>
    simp only [List.map_cons, List.map_nil, List.cons.injEq, and_true] at hlast
    exact ⟨pre, q, p, by rw [hlast.1, hlast.2, List.append_assoc]; rfl, hpre⟩

/-- With two nodes or more the tail is dropped. -/
theorem dropTail_denotes {l : DList α} {xs : List α} {a b : α} (h : Denotes l (xs ++ [b, a])) :
    ∃ l', dropTail l = .ok l' ∧ Denotes l' (xs ++ [b]) := by
  obtain ⟨ns, hns, hval⟩ := h
  obtain ⟨pre, q, p, rfl, hpre⟩ := nodes_of_two_last hval
  obtain ⟨l', hdrop, hns', -, -⟩ := dropTail_consists hns
  refine ⟨l', hdrop, _, hns', ?_⟩
  rw [List.map_append, hpre]
  rfl

/-- The node dropped has gone from the heap. -/
theorem dropTail_owns {l : DList α} {xs : List α} {a b : α} (h : Owns l (xs ++ [b, a])) :
    ∃ l', dropTail l = .ok l' ∧ Owns l' (xs ++ [b]) := by
  obtain ⟨ns, hns, hval, hothers⟩ := h
  obtain ⟨pre, q, p, rfl, hpre⟩ := nodes_of_two_last hval
  obtain ⟨l', hdrop, hns', hfreed, hframe⟩ := dropTail_consists hns
  refine ⟨l', hdrop, _, hns', ?_, fun r hr => ?_⟩
  · rw [List.map_append, hpre]
    rfl
  · by_cases hrp : r = p
    · rw [hrp, hfreed]
    · have hrq : r ≠ q := fun heq => hr (by simp [heq])
      rw [hframe r hrp hrq]
      refine hothers r fun hmem => ?_
      rw [List.map_append, List.mem_append] at hmem
      rcases hmem with hmem | hmem
      · exact hr hmem
      · exact hrp (by simpa using hmem)

/-- A sole node is left in place. -/
theorem dropTail_single {l : DList α} {a : α} (h : Denotes l [a]) : dropTail l = .ok l := by
  obtain ⟨ns, ⟨hlinks, -, -, -, htail⟩, hval⟩ := h
  match ns, hval with
  | [(p, _)], _ =>
    rw [dropTail, htail]
    show (Except.bind (l.heap.load (some p)) _) = _
    rw [Heap.load_some hlinks.1]
    rfl

/-- A null tail is the empty list. -/
theorem denotes_tail_eq_none_iff {l : DList α} {xs : List α} (h : Denotes l xs) :
    l.tail = none ↔ xs = [] := by
  obtain ⟨ns, ⟨-, -, -, -, htail⟩, rfl⟩ := h
  rw [htail]
  induction ns using List.reverseRecOn with
  | nil => exact iff_of_true rfl rfl
  | append_singleton init x _ =>
    rw [lastAddr_append]
    exact iff_of_false (by simp [lastAddr]) (by simp)

theorem denotes_head_eq_none_iff {l : DList α} {xs : List α} (h : Denotes l xs) :
    l.head = none ↔ xs = [] := by
  obtain ⟨ns, ⟨-, -, -, hhead, -⟩, rfl⟩ := h
  rw [hhead]
  cases ns with
  | nil => exact iff_of_true rfl rfl
  | cons x rest => exact iff_of_false (by simp [firstAddr]) (by simp)

/-- The head node carries the first value. -/
theorem load_head {l : DList α} {xs : List α} {a : α} (h : Denotes l (a :: xs)) :
    ∃ node, l.heap.load l.head = .ok node ∧ node.value = a := by
  obtain ⟨ns, ⟨hlinks, -, -, hhead, -⟩, hval⟩ := h
  match ns, hval with
  | (p, _) :: rest, hval =>
    rw [hhead]
    exact ⟨_, Heap.load_some hlinks.1, (List.cons.inj hval).1⟩

/-! ## Removing a node

`Remove` looks for the payload from the head on and unlinks the first node that has it. Which
pointers it writes depends on where the node stands: for the head there is no node before, for the
tail none behind. A sole node is taken for a head with a node behind it. -/

/-- The loop stops at the first match. Induction on the nodes before it. -/
theorem removeLoop_found {found : α → Bool} {l : DList α} {p : Nat} {a : α}
    {post : List (Nat × α)} (ha : found a = true) {pre : List (Nat × α)} :
    ∀ {prev : Option Nat} {fuel : Nat}, Links l.heap.cell prev (pre ++ (p, a) :: post) none →
      (∀ x ∈ pre, found x.2 = false) → pre.length < fuel →
      removeLoop found l fuel (firstAddr (pre ++ (p, a) :: post) none)
        = unlinkNode l (some p) ⟨lastAddr prev pre, a, firstAddr post none⟩ := by
  induction pre with
  | nil =>
    intro prev fuel hlinks _ hfuel
    obtain ⟨fuel, rfl⟩ : ∃ m, fuel = m + 1 := ⟨fuel - 1, by simp at hfuel; omega⟩
    show (l.heap.load (some p) >>= _) = _
    rw [Heap.load_some hlinks.1, ok_bind, if_pos ha]
    rfl
  | cons x rest ih =>
    intro prev fuel hlinks hnot hfuel
    obtain ⟨q, b⟩ := x
    rw [List.length_cons] at hfuel
    obtain ⟨fuel, rfl⟩ : ∃ m, fuel = m + 1 := ⟨fuel - 1, by omega⟩
    have hb : ¬ found b = true := by
      rw [hnot (q, b) List.mem_cons_self]
      exact Bool.false_ne_true
    -- `tmp->Next` is not null: the match is still ahead
    have hnext : firstAddr (rest ++ (p, a) :: post) none ≠ none := by
      rw [firstAddr_append]
      cases rest <;> simp [firstAddr]
    show (l.heap.load (some q) >>= _) = _
    rw [Heap.load_some hlinks.1, ok_bind, if_neg hb]
    show removeLoop found l fuel (if firstAddr (rest ++ (p, a) :: post) none ≠ none then
      firstAddr (rest ++ (p, a) :: post) none else some q) = _
    rw [if_pos hnext]
    exact ih hlinks.2 (fun y hy => hnot y (List.mem_cons_of_mem _ hy)) (by omega)

/-- The node at `p` is unlinked, unless it is the only one. One case for each branch of
`unlinkNode`: the head, the tail and a node in between. -/
theorem unlinkNode_consists {l : DList α} {pre post : List (Nat × α)} {p : Nat} {a : α}
    (h : Consists l (pre ++ (p, a) :: post)) (hmore : pre ++ post ≠ []) :
    ∃ l', unlinkNode l (some p) ⟨lastAddr none pre, a, firstAddr post none⟩ = .ok l'
      ∧ Consists l' (pre ++ post) := by
  obtain ⟨hpre, hcellp, hpost⟩ := h.node
  obtain ⟨hppre, hppost⟩ := h.notMem
  induction pre using List.reverseRecOn with
  | nil =>
    cases post with
    | nil => exact absurd rfl hmore
    | cons y post =>
      -- the head, with `Head->Previous = NULL` on the next node
      obtain ⟨q, b⟩ := y
      have hpq : p ≠ q := fun heq => hppost (by simp [heq])
      refine ⟨_, ?_, h.eraseFirst⟩
      show (l.heap.modify (some q) _ >>= _) = _
      rw [Heap.modify_some hpost.1, ok_bind]
      show (Heap.free _ (some p) >>= _) = _
      rw [Heap.free_some (Heap.update_cell hpq hcellp _)]
      rfl
  | append_singleton pre x _ =>
    obtain ⟨r, c⟩ := x
    have hpr : p ≠ r := fun heq => hppre (by simp [heq])
    have hcellr := ((links_append none pre [(r, c)] (some p)).mp hpre).2.1
    have hprev : lastAddr none (pre ++ [(r, c)]) = some r := by rw [lastAddr_append]; rfl
    cases post with
    | nil =>
      -- the tail
      rw [List.append_nil, hprev]
      refine ⟨_, ?_, h.eraseLast⟩
      show (l.heap.modify (some r) _ >>= _) = _
      rw [Heap.modify_some hcellr, ok_bind]
      show (Heap.free _ (some p) >>= _) = _
      rw [Heap.free_some (Heap.update_cell hpr hcellp _)]
      rfl
    | cons y post =>
      -- a node in between, both neighbours redirected
      obtain ⟨q, b⟩ := y
      have hpq : p ≠ q := fun heq => hppost (by simp [heq])
      have hrq : r ≠ q := fun heq => by
        have hnodup := h.nodup_erase
        rw [List.map_append, List.nodup_append] at hnodup
        exact hnodup.2.2 r (by simp) q (by simp) heq
      rw [hprev]
      refine ⟨_, ?_, h.eraseInner⟩
      show (l.heap.modify (some q) _ >>= _) = _
      rw [Heap.modify_some hpost.1, ok_bind]
      show (Heap.modify _ (some r) _ >>= _) = _
      rw [Heap.modify_some (Heap.update_cell hrq hcellr _), ok_bind]
      show (Heap.free _ (some p) >>= _) = _
      rw [Heap.free_some (Heap.update_cell hpr (Heap.update_cell hpq hcellp _) _)]
      rfl

/-- **Remove** takes out the first matching value of a list that has others. -/
theorem removeNode_denotes {found : α → Bool} {l : DList α} {xs ys : List α} {a : α} {fuel : Nat}
    (h : Denotes l (xs ++ a :: ys)) (ha : found a = true) (hnot : ∀ x ∈ xs, found x = false)
    (hmore : xs ++ ys ≠ []) (hfuel : xs.length < fuel) :
    ∃ l', removeNode found fuel l = .ok l' ∧ Denotes l' (xs ++ ys) := by
  have hhead : l.head ≠ none := by
    rw [Ne, denotes_head_eq_none_iff h]
    simp
  obtain ⟨ns, hns, hval⟩ := h
  obtain ⟨pre, rest, rfl, rfl, hrest⟩ := List.map_eq_append_iff.mp hval
  obtain ⟨⟨p, b⟩, post, rfl, rfl, rfl⟩ := List.map_eq_cons_iff.mp hrest
  have hmore' : pre ++ post ≠ [] := fun heq => hmore (by rw [← List.map_append, heq]; rfl)
  obtain ⟨l', hl', hns'⟩ := unlinkNode_consists hns hmore'
  refine ⟨l', ?_, pre ++ post, hns', List.map_append⟩
  rw [removeNode, if_neg hhead, hns.head,
    removeLoop_found ha hns.links (fun x hx => hnot x.2 (List.mem_map_of_mem hx))
      (by simpa using hfuel)]
  exact hl'

/-! ## Removing what is not there

The loop goes on while `tmp` is not null, but `tmp` stays at the tail once it is there. So a payload
that no node has is looked for without end, while on the empty list the loop is not entered. -/

/-- On the empty list nothing happens. -/
theorem removeNode_nil (found : α → Bool) (fuel : Nat) {l : DList α} (h : Denotes l []) :
    removeNode found fuel l = .ok l := by
  rw [removeNode, if_pos ((denotes_head_eq_none_iff h).mpr rfl)]

/-- Without a match the loop goes on to the tail and stays there. Induction on the fuel. -/
theorem removeLoop_absent {found : α → Bool} {l : DList α} (fuel : Nat) :
    ∀ {prev : Option Nat} {x : Nat × α} {ns : List (Nat × α)},
      Links l.heap.cell prev (x :: ns) none → (∀ y ∈ x :: ns, found y.2 = false) →
      removeLoop found l fuel (some x.1) = .error .outOfFuel := by
  induction fuel with
  | zero => exact fun _ _ => rfl
  | succ fuel ih =>
    intro prev x ns hlinks hnot
    obtain ⟨p, a⟩ := x
    have ha : ¬ found a = true := by
      rw [hnot (p, a) List.mem_cons_self]
      exact Bool.false_ne_true
    rw [removeLoop, Heap.load_some hlinks.1, ok_bind, if_neg ha]
    cases ns with
    -- `tmp->Next` is null, so `tmp` keeps its value
    | nil => exact ih hlinks hnot
    | cons y rest => exact ih hlinks.2 fun z hz => hnot z (List.mem_cons_of_mem _ hz)

/-- **Remove** of a value that no node holds does not end, unless the list is empty. -/
theorem removeNode_absent {found : α → Bool} {l : DList α} {xs : List α} (h : Denotes l xs)
    (hne : xs ≠ []) (hnot : ∀ x ∈ xs, found x = false) (fuel : Nat) :
    removeNode found fuel l = .error .outOfFuel := by
  have hhead : l.head ≠ none := by
    rw [Ne, denotes_head_eq_none_iff h]
    exact hne
  obtain ⟨ns, hns, rfl⟩ := h
  rw [removeNode, if_neg hhead, hns.head]
  cases ns with
  | nil => exact absurd rfl hne
  | cons x rest => exact removeLoop_absent fuel hns.links fun y hy => hnot y.2 (List.mem_map_of_mem hy)

/-- **Remove** of a sole node writes through the null `Head`. -/
theorem removeNode_single {found : α → Bool} {l : DList α} {a : α} (h : Denotes l [a])
    (ha : found a = true) (fuel : Nat) :
    removeNode found (fuel + 1) l = .error .nullPointer := by
  have hhead : l.head ≠ none := by
    rw [Ne, denotes_head_eq_none_iff h]
    exact List.cons_ne_nil _ _
  obtain ⟨ns, hns, hval⟩ := h
  obtain ⟨x, rfl, rfl⟩ := List.map_eq_singleton_iff.mp hval
  rw [removeNode, if_neg hhead, hns.head]
  show removeLoop found l (fuel + 1) (some x.1) = _
  rw [removeLoop, Heap.load_some hns.links.1, ok_bind, if_pos ha]
  rfl

/-- A match in a list with other values is taken out, whatever comes after it. -/
theorem removeNode_present {found : α → Bool} {l : DList α} {xs : List α} (h : Denotes l xs)
    (hfound : ∃ x ∈ xs, found x = true) (hmore : xs.length ≠ 1) {fuel : Nat}
    (hfuel : xs.length ≤ fuel) : ∃ l', removeNode found fuel l = .ok l' := by
  obtain ⟨a, hfind⟩ := Option.isSome_iff_exists.mp (List.find?_isSome.mpr hfound)
  obtain ⟨ha, as, bs, rfl, hnot⟩ := List.find?_eq_some_iff_append.mp hfind
  rw [List.length_append, List.length_cons] at hmore hfuel
  have hothers : as ++ bs ≠ [] := by
    intro heq
    have hlength := congrArg List.length heq
    rw [List.length_append, List.length_nil] at hlength
    omega
  have hbefore : as.length < fuel := by omega
  obtain ⟨l', hl', -⟩ := removeNode_denotes h ha (fun x hx => by simpa using hnot x hx) hothers hbefore
  exact ⟨l', hl'⟩

/-- **When the loop of `Remove` ends.** -/
theorem removeNode_ends_iff {found : α → Bool} {l : DList α} {xs : List α} (h : Denotes l xs) :
    (∃ fuel, removeNode found fuel l ≠ .error .outOfFuel)
      ↔ xs = [] ∨ ∃ x ∈ xs, found x = true := by
  constructor
  · rintro ⟨fuel, hends⟩
    by_contra! hnot
    apply hends
    exact removeNode_absent h hnot.1 (fun x hx => Bool.eq_false_iff.mpr (hnot.2 x hx)) fuel
  · -- the sole node ends the call too, by a fault
    rintro (rfl | hfound)
    · refine ⟨0, ?_⟩
      rw [removeNode_nil found 0 h]
      exact fun h => by cases h
    · by_cases hmore : xs.length = 1
      · obtain ⟨a, rfl⟩ := List.length_eq_one_iff.mp hmore
        obtain ⟨x, hx, ha⟩ := hfound
        obtain rfl := List.mem_singleton.mp hx
        refine ⟨1, ?_⟩
        rw [removeNode_single h ha 0]
        exact fun h => by cases h
      · obtain ⟨l', hl'⟩ := removeNode_present h hfound hmore (Nat.le_refl _)
        refine ⟨xs.length, ?_⟩
        rw [hl']
        exact fun h => by cases h

/-- **When `Remove` returns.** -/
theorem removeNode_returns_iff {found : α → Bool} {l : DList α} {xs : List α} (h : Denotes l xs) :
    (∃ fuel l', removeNode found fuel l = .ok l')
      ↔ xs = [] ∨ (xs.length ≠ 1 ∧ ∃ x ∈ xs, found x = true) := by
  constructor
  · rintro ⟨fuel, l', hl'⟩
    have hends : ∃ fuel, removeNode found fuel l ≠ .error .outOfFuel := by
      refine ⟨fuel, ?_⟩
      rw [hl']
      exact fun h => by cases h
    rcases (removeNode_ends_iff h).mp hends with hnil | hfound
    · exact Or.inl hnil
    · -- whatever the fuel, the sole node faults
      refine Or.inr ⟨fun hmore => ?_, hfound⟩
      obtain ⟨a, rfl⟩ := List.length_eq_one_iff.mp hmore
      obtain ⟨x, hx, ha⟩ := hfound
      obtain rfl := List.mem_singleton.mp hx
      cases fuel with
      | zero =>
        rw [removeNode, if_neg (by rw [denotes_head_eq_none_iff h]; exact List.cons_ne_nil _ _)] at hl'
        cases hl'
      | succ fuel =>
        rw [removeNode_single h ha fuel] at hl'
        cases hl'
  · rintro (rfl | ⟨hmore, hfound⟩)
    · exact ⟨0, l, removeNode_nil found 0 h⟩
    · exact ⟨xs.length, removeNode_present h hfound hmore (Nat.le_refl _)⟩

/-! ## Deleting all nodes

`destroyLoop` deletes the head while there is a node behind it, and the last node after the loop. It
reads no pointer of a node that has been deleted. -/

section Destroy

variable {l l' : DList α} {p : Nat} {node : Node α} {deleted : List Nat}

/-- The last node is left to the statement behind the loop. -/
theorem destroyLoop_last (fuel : Nat) (hhead : l.head = some p) (hp : l.heap.cell p = some node)
    (hnext : node.next = none) : destroyLoop (fuel + 1) l = .ok ([], l) := by
  rw [destroyLoop, hhead, Heap.load_some hp, ok_bind, if_neg (not_not_intro hnext)]

/-- One round: the head is deleted, and the loop goes on from the node after it. -/
theorem destroyLoop_next {fuel : Nat} (hhead : l.head = some p) (hp : l.heap.cell p = some node)
    (hnext : node.next ≠ none)
    (hrest : destroyLoop fuel ⟨⟨Function.update l.heap.cell p none, l.heap.brk⟩, node.next, some p⟩
      = .ok (deleted, l')) :
    destroyLoop (fuel + 1) l = .ok (p :: deleted, l') := by
  rw [destroyLoop, hhead, Heap.load_some hp, ok_bind, if_pos hnext, Heap.free_some hp, ok_bind, hrest]
  rfl

/-- The loop deletes all nodes but the last, which becomes the head. The node at the head still
points back to the one that has just been deleted. Induction on the nodes. -/
theorem destroyLoop_links {a : α} {ns : List (Nat × α)} :
    ∀ {l : DList α} {prev : Option Nat}, Links l.heap.cell prev (ns ++ [(p, a)]) none →
      ((ns ++ [(p, a)]).map Prod.fst).Nodup → l.head = firstAddr (ns ++ [(p, a)]) none →
      ∃ l', (∀ fuel, ns.length < fuel → destroyLoop fuel l = .ok (ns.map Prod.fst, l'))
        ∧ l'.head = some p ∧ (∀ q ∈ ns.map Prod.fst, l'.heap.cell q = none)
        ∧ ∀ q, q ∉ ns.map Prod.fst → l'.heap.cell q = l.heap.cell q := by
  induction ns with
  | nil =>
    intro l prev hlinks _ hhead
    refine ⟨l, fun fuel hfuel => ?_, hhead, by simp, fun _ _ => rfl⟩
    obtain ⟨fuel, rfl⟩ : ∃ m, fuel = m + 1 := ⟨fuel - 1, by omega⟩
    exact destroyLoop_last fuel hhead hlinks.1 rfl
  | cons x ns ih =>
    obtain ⟨r, b⟩ := x
    intro l prev hlinks hnodup hhead
    rw [List.cons_append, List.map_cons, List.nodup_cons] at hnodup
    -- there is a node behind this one
    have hnext : firstAddr (ns ++ [(p, a)]) none ≠ none := by
      rw [firstAddr_append]
      cases ns <;> simp [firstAddr]
    obtain ⟨l', hloop, hhead', hfreed, hframe⟩ := ih
      (l := ⟨⟨Function.update l.heap.cell r none, l.heap.brk⟩, firstAddr (ns ++ [(p, a)]) none, some r⟩)
      (links_update_of_notMem none hnodup.1 hlinks.2) hnodup.2 rfl
    refine ⟨l', fun fuel hfuel => ?_, hhead', fun q hq => ?_, fun q hq => ?_⟩
    · rw [List.length_cons] at hfuel
      obtain ⟨fuel, rfl⟩ : ∃ m, fuel = m + 1 := ⟨fuel - 1, by omega⟩
      exact destroyLoop_next hhead hlinks.1 hnext (hloop fuel (by omega))
    · by_cases hmem : q ∈ ns.map Prod.fst
      · exact hfreed q hmem
      · -- the node deleted in this round
        obtain rfl : q = r := (List.mem_cons.mp hq).resolve_right hmem
        rw [hframe q hmem]
        exact Function.update_self _ _ _
    · rw [List.map_cons, List.mem_cons, not_or] at hq
      rw [hframe q hq.2]
      exact Heap.update_cell hq.1 rfl _

/-- **The destructor** deletes every node of the list once, from the head to the tail, and nothing
else. -/
theorem destroyNodes_consists {ns : List (Nat × α)} (h : Consists l ns) :
    ∃ l', (∀ fuel, ns.length ≤ fuel → destroyNodes fuel l = .ok (ns.map Prod.fst, l'))
      ∧ (∀ q ∈ ns.map Prod.fst, l'.heap.cell q = none)
      ∧ ∀ q, q ∉ ns.map Prod.fst → l'.heap.cell q = l.heap.cell q := by
  rcases List.eq_nil_or_concat ns with rfl | ⟨ns, ⟨p, a⟩, rfl⟩
  · have hhead : l.head = none := h.head
    refine ⟨l, fun fuel _ => ?_, by simp, fun _ _ => rfl⟩
    rw [destroyNodes, if_neg (not_not_intro hhead)]
    rfl
  · rw [List.concat_eq_append] at h ⊢
    have hhead : l.head ≠ none := by
      rw [h.head, firstAddr_append]
      cases ns <;> simp [firstAddr]
    obtain ⟨l', hloop, hhead', hfreed, hframe⟩ := destroyLoop_links h.links h.nodup h.head
    -- the last node has not been touched by the loop
    have hlast : l'.heap.cell p = some ⟨lastAddr none ns, a, none⟩ := by
      rw [hframe p h.notMem.1]
      exact h.node.2.1
    refine ⟨{ l' with heap := ⟨Function.update l'.heap.cell p none, l'.heap.brk⟩ },
      fun fuel hfuel => ?_, fun q hq => ?_, fun q hq => ?_⟩
    · rw [List.length_append] at hfuel
      rw [destroyNodes, if_pos hhead, hloop fuel hfuel, ok_bind]
      dsimp only
      rw [hhead', Heap.free_some hlast, ok_bind, List.map_append]
      rfl
    · by_cases hqp : q = p
      · subst hqp
        exact Function.update_self _ _ _
      · rw [List.map_append, List.mem_append] at hq
        exact Heap.update_cell hqp (hfreed q (hq.resolve_right (by simpa using hqp))) _
    · rw [List.map_append, List.mem_append, not_or] at hq
      exact Heap.update_cell (by simpa using hq.2) (hframe q hq.1) _

/-- The destructor of a list that owns its heap leaves no node behind. -/
theorem destroyNodes_owns {xs : List α} (h : Owns l xs) :
    ∃ deleted l', (∀ fuel, xs.length ≤ fuel → destroyNodes fuel l = .ok (deleted, l'))
      ∧ deleted.Nodup ∧ (∀ q, q ∈ deleted ↔ l.heap.cell q ≠ none)
      ∧ ∀ q, l'.heap.cell q = none := by
  obtain ⟨ns, hns, rfl, hothers⟩ := h
  obtain ⟨l', hdestroy, hfreed, hframe⟩ := destroyNodes_consists hns
  refine ⟨ns.map Prod.fst, l', fun fuel hfuel => hdestroy fuel (by simpa using hfuel), hns.nodup,
    fun q => ⟨fun hmem => ?_, fun hcell => ?_⟩, fun q => ?_⟩
  · obtain ⟨⟨p, a⟩, hx, rfl⟩ := List.mem_map.mp hmem
    obtain ⟨pre, post, rfl⟩ := List.append_of_mem hx
    rw [hns.node.2.1]
    exact Option.some_ne_none _
  · by_contra hmem
    exact hcell (hothers q hmem)
  · by_cases hmem : q ∈ ns.map Prod.fst
    · exact hfreed q hmem
    · rw [hframe q hmem, hothers q hmem]

end Destroy

end OsLab
