import OsLab.NodeList

/-!
# OsLab.Twitter.ConnectionList — the connections of a process

`ConnectionList`: a NODE list of the mappings a process has open, each with the address at which
its view is mapped. `Add` prepends, so the tail is the connection that was added first.
-/

namespace OsLab.Twitter

open DoublyLinked Fallible

/-- A `HANDLE`, which the program only compares. -/
abbrev Handle := Nat

/-- The payload of a `NODE`; a `pBuf` of `none` is the null pointer. -/
structure Connection where
  hIndex : Handle
  pBuf : Option Nat
  deriving DecidableEq, Repr

/-- `ConnectionList`, from `Head` to `Tail`. -/
abbrev ConnectionList := DList Connection

namespace ConnectionList

/-- `Add(hIndex, pBuf)`. -/
def add (l : ConnectionList) (hIndex : Handle) (pBuf : Option Nat) : Except Fault ConnectionList :=
  pushNode l { hIndex, pBuf }

/-- `Remove(hIndex)`. -/
def remove (fuel : Nat) (l : ConnectionList) (hIndex : Handle) : Except Fault ConnectionList :=
  removeNode (·.hIndex == hIndex) fuel l

/-- `PeekTail()`. -/
def peekTail (l : ConnectionList) : Except Fault (Option Nat) :=
  if l.tail ≠ none then do
    let tmp ← l.heap.load l.tail
    .ok tmp.value.pBuf
  else
    .ok none

/-- The loop of `PeekBuffer`, at the node `tmp`. -/
def peekLoop (heap : Heap Connection) (hIndex : Handle) :
    Nat → Option Nat → Except Fault (Option Nat)
  | 0, _ => .error .outOfFuel
  | _ + 1, none => .ok none
  | fuel + 1, some p => do
    let tmp ← heap.load (some p)
    if tmp.value.hIndex = hIndex then .ok tmp.value.pBuf
    else peekLoop heap hIndex fuel tmp.next

/-- `PeekBuffer(hIndex)`. -/
def peekBuffer (fuel : Nat) (l : ConnectionList) (hIndex : Handle) : Except Fault (Option Nat) :=
  peekLoop l.heap hIndex fuel l.head

/-- `RemoveTail()`: the returned `BOOL` and the list afterwards. -/
def removeTail (l : ConnectionList) : Except Fault (Bool × ConnectionList) :=
  if l.tail ≠ none then do
    let tmp ← l.heap.load l.tail
    let l ← dropTail l
    .ok (decide (tmp.previous ≠ none), l)
  else
    .ok (false, l)

/-- `~ConnectionList()`: the nodes deleted, in order, and the list afterwards. -/
def destroy (fuel : Nat) (l : ConnectionList) : Except Fault (List Nat × ConnectionList) :=
  destroyNodes fuel l

variable {l l' : ConnectionList} {xs : List Connection}

theorem add_owns (h : Owns l xs) (hIndex : Handle) (pBuf : Option Nat) :
    ∃ l', l.add hIndex pBuf = .ok l' ∧ Owns l' (⟨hIndex, pBuf⟩ :: xs) :=
  pushNode_owns h _

/-- `PeekTail` is the view of the oldest connection. -/
theorem peekTail_denotes (h : Denotes l xs) :
    l.peekTail = .ok (xs.getLast?.bind Connection.pBuf) := by
  rcases List.eq_nil_or_concat xs with rfl | ⟨ys, oldest, rfl⟩
  · rw [peekTail, if_neg (not_not_intro ((denotes_tail_eq_none_iff h).mpr rfl))]
    rfl
  · rw [List.concat_eq_append] at h ⊢
    have htail : l.tail ≠ none := by
      rw [Ne, denotes_tail_eq_none_iff h]
      simp
    obtain ⟨node, hload, hvalue⟩ := load_tail h
    rw [peekTail, if_pos htail, hload, ok_bind, hvalue, List.getLast?_concat]
    rfl

/-- The loop looks at the nodes from `tmp` on. Induction on them. -/
theorem peekLoop_forward {heap : Heap Connection} (hIndex : Handle) {tmp : Option Nat}
    (h : Forward heap.cell tmp xs) :
    ∀ {fuel : Nat}, xs.length < fuel → peekLoop heap hIndex fuel tmp
      = .ok ((xs.find? fun connection => connection.hIndex = hIndex).bind Connection.pBuf) := by
  induction h with
  | nil =>
    intro fuel hfuel
    obtain ⟨fuel, rfl⟩ := Nat.exists_eq_add_one.mpr hfuel
    rfl
  | @cons p node rest hp _ ih =>
    intro fuel hfuel
    obtain ⟨fuel, rfl⟩ := Nat.exists_eq_add_one.mpr (Nat.zero_lt_of_lt hfuel)
    rw [peekLoop, Heap.load_some hp, ok_bind]
    by_cases hfound : node.value.hIndex = hIndex
    · rw [if_pos hfound, List.find?_cons_of_pos (by simpa using hfound)]
      rfl
    · rw [if_neg hfound, List.find?_cons_of_neg (by simpa using hfound)]
      exact ih (Nat.lt_of_succ_lt_succ hfuel)

/-- `PeekBuffer` is the view of the first connection with that handle. -/
theorem peekBuffer_denotes (h : Denotes l xs) (hIndex : Handle) {fuel : Nat}
    (hfuel : xs.length < fuel) : l.peekBuffer fuel hIndex
      = .ok ((xs.find? fun connection => connection.hIndex = hIndex).bind Connection.pBuf) := by
  obtain ⟨ns, hns, rfl⟩ := h
  have hforward := forward_of_links hns.links
  rw [← hns.head] at hforward
  exact peekLoop_forward hIndex hforward hfuel

/-- `RemoveTail` says whether there was a node before the tail. -/
theorem removeTail_eq {oldest : Connection} (h : Denotes l (xs ++ [oldest]))
    (hdrop : dropTail l = .ok l') : l.removeTail = .ok (decide (xs ≠ []), l') := by
  have htail : l.tail ≠ none := by
    rw [Ne, denotes_tail_eq_none_iff h]
    simp
  obtain ⟨node, hload, -⟩ := load_tail h
  have hprevious : node.previous ≠ none ↔ xs ≠ [] := not_congr (tail_previous_iff h hload)
  rw [removeTail, if_pos htail, hload, ok_bind, hdrop, ok_bind, decide_eq_decide.mpr hprevious]

/-- `RemoveTail` drops the oldest connection of two or more, and says whether it did. -/
theorem removeTail_denotes (h : Denotes l xs) :
    ∃ l', l.removeTail = .ok (decide (2 ≤ xs.length), l')
      ∧ Denotes l' (if 2 ≤ xs.length then xs.dropLast else xs) := by
  rcases List.eq_nil_or_concat xs with rfl | ⟨ys, oldest, rfl⟩
  · -- no connection, one, or at least two
    refine ⟨l, ?_, h⟩
    rw [removeTail, if_neg (not_not_intro ((denotes_tail_eq_none_iff h).mpr rfl))]
    rfl
  · rw [List.concat_eq_append] at h ⊢
    rw [List.length_append, List.length_singleton, List.dropLast_concat]
    rcases List.eq_nil_or_concat ys with rfl | ⟨zs, z, rfl⟩
    · exact ⟨l, removeTail_eq h (dropTail_single h), h⟩
    · rw [List.concat_eq_append] at h ⊢
      have htwo : 2 ≤ (zs ++ [z]).length + 1 := by simp
      have h' := h
      rw [List.append_assoc] at h'
      obtain ⟨l', hdrop, hden⟩ := dropTail_denotes h'
      refine ⟨l', ?_, ?_⟩
      · rw [removeTail_eq h hdrop, decide_eq_true htwo, decide_eq_true (by simp)]
      · rw [if_pos htwo]
        exact hden

end ConnectionList

end OsLab.Twitter
