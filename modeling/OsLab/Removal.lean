import OsLab.Paging.LinkedList
import OsLab.Twitter.ConnectionList

/-!
# OsLab — removal by key

`LinkedList::Remove` and `ConnectionList::Remove` are the same loop, which leaves only through a
node with the key: `tmp` is advanced while there is a next node, so it never becomes null. Three
things can come of a call on a list with nodes.

* The key is there, beside another node: `Remove` returns.
* The key is in the only node: `Head = tmp->Next` makes `Head` null, and `Head->Previous` is
  written through it.
* The key is not there: the loop stays on the tail for ever.

`remove_ends_iff` says so of both lists.
-/

namespace OsLab

open DoublyLinked

variable {α : Type}

/-- A call of `Remove` on `l`, given the fuel: its loop ends and it returns, and without the key it
returns with the list as it was. -/
structure RemovalEnds (l : DList α) (absent : Prop) (call : Nat → Except Fault (DList α)) : Prop where
  returns : ∃ fuel l', call fuel = .ok l'
  unchanged : absent → ∃ fuel, call fuel = .ok l

/-- The key is absent when no node has it. -/
theorem not_exists_found {found : α → Bool} {xs : List α} :
    (¬ ∃ x ∈ xs, found x = true) ↔ ∀ x ∈ xs, found x = false := by
  simp

/-- **When the loop ends**: on the empty list, or with the key beside another node. -/
theorem removalEnds_iff {found : α → Bool} {l : DList α} {xs : List α} (h : Denotes l xs) :
    RemovalEnds l (∀ x ∈ xs, found x = false) (removeNode found · l)
      ↔ xs = [] ∨ (xs.length ≠ 1 ∧ ∃ x ∈ xs, found x = true) := by
  rw [← removeNode_returns_iff h]
  refine ⟨RemovalEnds.returns, fun hreturns => ⟨hreturns, fun habsent => ?_⟩⟩
  -- nothing matches and the call returns, so there is no node
  rcases (removeNode_returns_iff h).mp hreturns with rfl | ⟨-, x, hx, hfound⟩
  · exact ⟨0, removeNode_nil found 0 h⟩
  · rw [habsent x hx] at hfound
    cases hfound

/-- **How it fails otherwise**: the sole node is removed through the null `Head`; without the key
no fuel is enough. -/
theorem removeNode_fails {found : α → Bool} {l : DList α} {xs : List α} (h : Denotes l xs) :
    (xs.length = 1 → (∃ x ∈ xs, found x = true) →
        ∀ fuel, removeNode found (fuel + 1) l = .error .nullPointer)
      ∧ (xs ≠ [] → (¬ ∃ x ∈ xs, found x = true) →
        ∀ fuel, removeNode found fuel l = .error .outOfFuel) := by
  constructor
  · rintro hone ⟨x, hx, hfound⟩ fuel
    obtain ⟨a, rfl⟩ := List.length_eq_one_iff.mp hone
    obtain rfl := List.mem_singleton.mp hx
    exact removeNode_single h hfound fuel
  · exact fun hne habsent => removeNode_absent h hne (not_exists_found.mp habsent)

/-- **Headline.** On every well-formed list the loop of `Remove` ends, the call returns, and an
absent key changes nothing, exactly if the list is empty or has the key beside another node. With
the key in its only node the call writes through null, and with nodes but without the key it goes
round for ever. -/
theorem remove_ends_iff {history : Paging.LinkedList} {pages : List Int}
    (hhistory : Denotes history pages) (page : Int) {list : Twitter.ConnectionList}
    {connections : List Twitter.Connection} (hlist : Denotes list connections)
    (hIndex : Twitter.Handle) :
    ((RemovalEnds history (page ∉ pages) (history.remove · page)
          ↔ pages = [] ∨ (pages.length ≠ 1 ∧ page ∈ pages))
        ∧ (pages.length = 1 → page ∈ pages →
          ∀ fuel, history.remove (fuel + 1) page = .error .nullPointer)
        ∧ (pages ≠ [] → page ∉ pages → ∀ fuel, history.remove fuel page = .error .outOfFuel))
      ∧ (RemovalEnds list (hIndex ∉ connections.map (·.hIndex)) (list.remove · hIndex)
          ↔ connections = [] ∨ (connections.length ≠ 1 ∧ hIndex ∈ connections.map (·.hIndex)))
        ∧ (connections.length = 1 → hIndex ∈ connections.map (·.hIndex) →
          ∀ fuel, list.remove (fuel + 1) hIndex = .error .nullPointer)
        ∧ (connections ≠ [] → hIndex ∉ connections.map (·.hIndex) →
          ∀ fuel, list.remove fuel hIndex = .error .outOfFuel) := by
  constructor
  · -- the history, whose nodes have a page
    have hmem : page ∈ pages ↔ ∃ x ∈ pages, (x == page) = true := by simp
    rw [hmem]
    refine ⟨?_, removeNode_fails hhistory⟩
    rw [not_exists_found]
    exact removalEnds_iff hhistory
  · -- the connections, whose nodes have a handle
    have hmem : hIndex ∈ connections.map (·.hIndex)
        ↔ ∃ x ∈ connections, (x.hIndex == hIndex) = true := by simp
    rw [hmem]
    refine ⟨?_, removeNode_fails hlist⟩
    rw [not_exists_found]
    exact removalEnds_iff hlist

/-- A list put together with `pushNode`. -/
theorem pushNodes_denotes (xs : List α) :
    ∃ l, xs.foldlM pushNode (DList.empty : DList α) = .ok l ∧ Denotes l xs.reverse := by
  induction xs using List.reverseRecOn with
  | nil => exact ⟨_, rfl, denotes_empty⟩
  | append_singleton xs a ih =>
    obtain ⟨l, hl, hden⟩ := ih
    obtain ⟨l', hl', hden'⟩ := pushNode_denotes hden a
    refine ⟨l', ?_, by rwa [List.reverse_append]⟩
    rw [List.foldlM_append, hl]
    show (pushNode l a >>= fun l => .ok l) = _
    rw [hl']
    rfl

/-- Three pages and three connections, of which the ones in the middle are removed. -/
theorem remove_ends_iff_inner : ∃ (history : Paging.LinkedList) (list : Twitter.ConnectionList),
    [(30 : Int), 20, 10].foldlM Paging.LinkedList.addToHead DList.empty = .ok history
      ∧ [(⟨3, none⟩ : Twitter.Connection), ⟨2, some 0x2000⟩, ⟨1, some 0x1000⟩].foldlM pushNode
        DList.empty = .ok list
      ∧ RemovalEnds history (20 ∉ [(10 : Int), 20, 30]) (history.remove · 20)
      ∧ RemovalEnds list (2 ∉ [1, 2, 3]) (list.remove · 2) := by
  obtain ⟨history, hadds, hhistory⟩ := pushNodes_denotes [(30 : Int), 20, 10]
  obtain ⟨list, hconnects, hlist⟩ :=
    pushNodes_denotes [(⟨3, none⟩ : Twitter.Connection), ⟨2, some 0x2000⟩, ⟨1, some 0x1000⟩]
  obtain ⟨⟨hpages, -⟩, hconnections, -⟩ := remove_ends_iff hhistory 20 hlist 2
  exact ⟨history, list, hadds, hconnects, hpages.mpr (Or.inr ⟨by decide, by decide⟩),
    hconnections.mpr (Or.inr ⟨by decide, by decide⟩)⟩

/-- The list of the one page 1. -/
def onePage : Paging.LinkedList :=
  { heap := { cell := Function.update (fun _ => none) 0 (some ⟨none, 1, none⟩), brk := 1 }
    head := some 0, tail := some 0 }

theorem onePage_denotes : Denotes onePage [1] :=
  ⟨[(0, 1)], ⟨⟨rfl, trivial⟩, by simp, by simp [onePage], rfl, rfl⟩, rfl⟩

/-- **The test that stays true**: `Remove(2)` on the list of page 1 goes round for ever. -/
theorem remove_absent_loops :
    (∀ fuel, onePage.remove fuel 2 = .error .outOfFuel)
      ∧ ¬ ∀ (l : Paging.LinkedList) (pages : List Int) (page : Int), Denotes l pages →
        RemovalEnds l (page ∉ pages) (l.remove · page) := by
  have hloops : ∀ fuel, onePage.remove fuel 2 = .error .outOfFuel :=
    removeNode_absent onePage_denotes (List.cons_ne_nil _ _) (by decide)
  refine ⟨hloops, fun hall => ?_⟩
  obtain ⟨fuel, l', hreturns⟩ := (hall onePage [1] 2 onePage_denotes).returns
  rw [hloops fuel] at hreturns
  cases hreturns

end OsLab
