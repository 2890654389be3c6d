import OsLab.NodeList

/-!
# OsLab.Paging.LinkedList — the page history

`LinkedList` of the page-replacement program: a NODE list of page numbers. Each member
function with what it does to the denoted pages, head to tail.

* `addToHead_denotes`: `AddToHead` prepends.
* `removeTail_denotes`: `RemoveTail` takes the last page off a list of two or more.
* `moveToHead_denotes`: `MoveToHead` moves the first occurrence of a page that is there.
-/

namespace OsLab.Paging

open DoublyLinked Fallible

/-- `LinkedList`, from `Head` to `Tail`. -/
abbrev LinkedList := DList Int

namespace LinkedList

/-- `AddToHead(page)`. -/
def addToHead (l : LinkedList) (page : Int) : Except Fault LinkedList := pushNode l page

/-- `RemoveTail()`: the page returned, `-1` on the empty list, and the list afterwards. -/
def removeTail (l : LinkedList) : Except Fault (Int × LinkedList) :=
  if l.tail ≠ none then do
    let tmp ← l.heap.load l.tail
    let l ← dropTail l
    .ok (tmp.value, l)
  else
    .ok (-1, l)

/-- `Remove(page)`. -/
def remove (fuel : Nat) (l : LinkedList) (page : Int) : Except Fault LinkedList :=
  removeNode (· == page) fuel l

/-- `MoveToHead(page)`: nothing on the empty list, nor for the page on top. -/
def moveToHead (fuel : Nat) (l : LinkedList) (page : Int) : Except Fault LinkedList :=
  if l.head ≠ none then do
    let head ← l.heap.load l.head
    if head.value ≠ page then
      let l ← l.remove fuel page
      l.addToHead page
    else
      .ok l
  else
    .ok l

theorem addToHead_denotes {l : LinkedList} {xs : List Int} (h : Denotes l xs) (page : Int) :
    ∃ l', l.addToHead page = .ok l' ∧ Denotes l' (page :: xs) :=
  pushNode_denotes h page

/-- Of two pages or more the last one is returned and dropped. -/
theorem removeTail_denotes {l : LinkedList} {xs : List Int} {last : Int} (hne : xs ≠ [])
    (h : Denotes l (xs ++ [last])) :
    ∃ l', l.removeTail = .ok (last, l') ∧ Denotes l' xs := by
  have htail : l.tail ≠ none := by
    rw [Ne, denotes_tail_eq_none_iff h]
    simp
  obtain ⟨node, hload, hvalue⟩ := load_tail h
  obtain ⟨ys, y, rfl⟩ : ∃ ys y, xs = ys ++ [y] :=
    ⟨xs.dropLast, xs.getLast hne, (List.dropLast_append_getLast hne).symm⟩
  rw [List.append_assoc] at h
  obtain ⟨l', hdrop, hden⟩ := dropTail_denotes h
  refine ⟨l', ?_, hden⟩
  rw [removeTail, if_pos htail, hload, ok_bind, hdrop, ok_bind, hvalue]

/-- The first occurrence of the page goes, if there are others. -/
theorem remove_denotes {l : LinkedList} {xs : List Int} {page : Int} {fuel : Nat}
    (h : Denotes l xs) (hpage : page ∈ xs) (hmore : xs.erase page ≠ []) (hfuel : xs.length ≤ fuel) :
    ∃ l', l.remove fuel page = .ok l' ∧ Denotes l' (xs.erase page) := by
  obtain ⟨as, bs, hnot, rfl, herase⟩ := List.exists_erase_eq hpage
  rw [herase] at hmore ⊢
  rw [List.length_append, List.length_cons] at hfuel
  refine removeNode_denotes h (by simp) (fun x hx => ?_) hmore (by omega)
  simpa using fun heq : x = page => hnot (heq ▸ hx)

/-- A page of the list becomes the first. -/
theorem moveToHead_denotes {l : LinkedList} {xs : List Int} {page : Int} {fuel : Nat}
    (h : Denotes l xs) (hpage : page ∈ xs) (hfuel : xs.length ≤ fuel) :
    ∃ l', l.moveToHead fuel page = .ok l' ∧ Denotes l' (page :: xs.erase page) := by
  cases xs with
  | nil => cases hpage
  | cons top rest =>
    have hhead : l.head ≠ none := by
      rw [Ne, denotes_head_eq_none_iff h]
      simp
    obtain ⟨node, hload, hvalue⟩ := load_head h
    -- on top already, or removed and added again
    by_cases htop : top = page
    · refine ⟨l, ?_, ?_⟩
      · rw [moveToHead, if_pos hhead, hload, ok_bind, hvalue, if_neg (not_not_intro htop)]
      · rw [htop, List.erase_cons_head]
        exact htop ▸ h
    · have hmore : (top :: rest).erase page ≠ [] := by
        rw [List.erase_cons_tail (by simpa using htop)]
        exact List.cons_ne_nil _ _
      obtain ⟨l₁, hremove, hden⟩ := remove_denotes h hpage hmore hfuel
      obtain ⟨l₂, hadd, hden'⟩ := addToHead_denotes hden page
      refine ⟨l₂, ?_, hden'⟩
      rw [moveToHead, if_pos hhead, hload, ok_bind, hvalue, if_pos htop, hremove, ok_bind, hadd]

end LinkedList

end OsLab.Paging
