import OsLab.Twitter.Shutdown

/-!
# OsLab.Twitter.Unmapping — the views that the destructor unmaps

`~SharedMemoryIO` goes through `pConnectionList` from the tail: it unmaps the view of the tail,
removes the tail and looks at the new one. `RemoveTail` leaves a sole node where it is and returns
`FALSE`, which ends the loop with that node still in the list; `~ConnectionList` deletes it.

* **`unmapLoop_owns`**: on the connections of any sequence of `Add`s, the loop unmaps each view
  once, oldest first, and leaves one node.
* **`unmaps_each_once`**: the loop and `~ConnectionList` together.
* **`run_unmapLoop`**, **`views_unmapped`**: the statements of the destructor in `Shutdown` make the
  calls of the loop, and after them no view of a connection is mapped.
-/

namespace OsLab.Twitter

open DoublyLinked Fallible

/-! ## The loop

`~SharedMemoryIO` walks its connections from the tail. `unmapLoop` records for each call of
`UnmapViewOfFile` the list as it was then, so that it can be said that the node whose view is
unmapped has not been deleted. -/

/-- A call of `UnmapViewOfFile`, with the list at the time of the call. -/
structure UnmapCall where
  pBuf : Nat
  connections : ConnectionList

/-- The view is that of the tail, and the tail has not been freed. -/
def UnmapCall.OnLiveNode (call : UnmapCall) : Prop :=
  ∃ node, call.connections.heap.load call.connections.tail = .ok node
    ∧ node.value.pBuf = some call.pBuf

/-- `while (flag && pBuf != NULL) { UnmapViewOfFile(pBuf); flag = pConnectionList->RemoveTail();
pBuf = pConnectionList->PeekTail(); }`: the calls, in order, and the list afterwards. -/
def unmapLoop : Nat → Bool → Option Nat → ConnectionList →
    Except Fault (List UnmapCall × ConnectionList)
  | 0, _, _, _ => .error .outOfFuel
  | fuel + 1, true, some pBuf, l => do
    let (flag, l₁) ← l.removeTail
    let next ← l₁.peekTail
    let (calls, l₂) ← unmapLoop fuel flag next l₁
    .ok ({ pBuf, connections := l } :: calls, l₂)
  | _ + 1, _, _, l => .ok ([], l)

/-- The loop of `~SharedMemoryIO`, with `flag` and `pBuf` as they are declared. -/
def unmapViews (fuel : Nat) (l : ConnectionList) : Except Fault (List UnmapCall × ConnectionList) := do
  let pBuf ← l.peekTail
  unmapLoop fuel true pBuf l

/-- Calls `Add(hIndex, pBuf)` with buffers that are not null. -/
def addAll (l : ConnectionList) (adds : List (Handle × Nat)) : Except Fault ConnectionList :=
  adds.foldlM (fun l connection => l.add connection.1 (some connection.2)) l

/-- The connections of calls of `Add`, from head to tail. -/
def connections (adds : List (Handle × Nat)) : List Connection :=
  (adds.map fun add => { hIndex := add.1, pBuf := some add.2 }).reverse

/-- The first call of `Add` makes the last node. -/
theorem connections_cons (first : Handle × Nat) (rest : List (Handle × Nat)) :
    connections (first :: rest) = connections rest ++ [⟨first.1, some first.2⟩] :=
  List.reverse_cons

/-- After any calls of `Add` the list has their connections, and no other node is left. -/
theorem addAll_owns (adds : List (Handle × Nat)) :
    ∃ l, addAll .empty adds = .ok l ∧ Owns l (connections adds) := by
  -- a new connection stands in front of those before it; induction on the calls
  have hrun : ∀ (adds before : List (Handle × Nat)) {l : ConnectionList}, Owns l (connections before) →
      ∃ l', addAll l adds = .ok l' ∧ Owns l' (connections (before ++ adds)) := by
    intro adds
    induction adds with
    | nil =>
      intro before l h
      rw [List.append_nil]
      exact ⟨l, rfl, h⟩
    | cons add adds ih =>
      intro before l h
      obtain ⟨l₁, hadd, h₁⟩ := ConnectionList.add_owns h add.1 (some add.2)
      have h₁' : Owns l₁ (connections (before ++ [add])) := by
        rw [connections, List.map_append, List.reverse_append]
        exact h₁
      obtain ⟨l', hrest, h'⟩ := ih (before ++ [add]) h₁'
      rw [List.append_assoc] at h'
      refine ⟨l', ?_, h'⟩
      rw [addAll, List.foldlM_cons, hadd, ok_bind]
      exact hrest
  exact hrun adds [] owns_empty

variable {l l₁ l₂ : ConnectionList} {first : Handle × Nat} {rest : List (Handle × Nat)}

/-! ## What the loop does

`RemoveTail` deletes the tail unless it is the only node, and then it says so; the loop goes by
that. So every view is unmapped before its node goes, and the last node is left to the destructor of
the list. -/

/-- `PeekTail` is the view of the connection that was added first. -/
theorem peekTail_owns (h : Owns l (connections (first :: rest))) :
    l.peekTail = .ok (some first.2) := by
  rw [ConnectionList.peekTail_denotes h.denotes, connections_cons, List.getLast?_concat]
  rfl

/-- The view that was added first is at the tail, which is still there. -/
theorem onLiveNode_owns (h : Owns l (connections (first :: rest))) :
    UnmapCall.OnLiveNode ⟨first.2, l⟩ := by
  rw [connections_cons] at h
  obtain ⟨node, hload, hvalue⟩ := load_tail h.denotes
  exact ⟨node, hload, by rw [hvalue]⟩

/-- A sole connection stays, and `RemoveTail` returns `FALSE`. -/
theorem removeTail_sole (h : Owns l (connections [first])) : l.removeTail = .ok (false, l) := by
  have hden : Denotes l ([] ++ [⟨first.1, some first.2⟩]) := h.denotes
  exact ConnectionList.removeTail_eq hden (dropTail_single hden)

/-- Of several connections the one that was added first is removed. -/
theorem removeTail_several {second : Handle × Nat}
    (h : Owns l (connections (first :: second :: rest))) :
    ∃ l₁, l.removeTail = .ok (true, l₁) ∧ Owns l₁ (connections (second :: rest)) := by
  rw [connections_cons] at h
  have hden := h.denotes
  rw [connections_cons, List.append_assoc] at h
  obtain ⟨l₁, hdrop, h₁⟩ := dropTail_owns h
  rw [← connections_cons] at h₁
  have hmore : connections (second :: rest) ≠ [] := by
    rw [connections_cons]
    simp
  refine ⟨l₁, ?_, h₁⟩
  rw [ConnectionList.removeTail_eq hden hdrop, decide_eq_true hmore]

/-- One round of the loop. -/
theorem unmapLoop_round {fuel view : Nat} {flag : Bool} {next : Option Nat} {calls : List UnmapCall}
    (hremove : l.removeTail = .ok (flag, l₁)) (hpeek : l₁.peekTail = .ok next)
    (hrest : unmapLoop fuel flag next l₁ = .ok (calls, l₂)) :
    unmapLoop (fuel + 1) true (some view) l = .ok (⟨view, l⟩ :: calls, l₂) := by
  rw [unmapLoop, hremove, ok_bind]
  dsimp only
  rw [hpeek, ok_bind, hrest, ok_bind]

/-- **The loop.** It ends, unmaps each view once and oldest first, always with the node still
there, and leaves one node. Induction on the connections after the oldest. -/
theorem unmapLoop_owns (rest : List (Handle × Nat)) :
    ∀ {first : Handle × Nat} {l : ConnectionList}, Owns l (connections (first :: rest)) →
      ∃ calls l', (∀ fuel, rest.length + 1 < fuel →
          unmapLoop fuel true (some first.2) l = .ok (calls, l'))
        ∧ calls.map UnmapCall.pBuf = (first :: rest).map Prod.snd
        ∧ (∀ call ∈ calls, call.OnLiveNode) ∧ ∃ newest, Owns l' [newest] := by
  induction rest with
  | nil =>
    intro first l h
    refine ⟨[⟨first.2, l⟩], l, fun fuel hfuel => ?_, rfl, ?_, _, h⟩
    · obtain ⟨fuel, rfl⟩ : ∃ m, fuel = m + 2 := ⟨fuel - 2, by simp at hfuel; omega⟩
      -- the flag ends the loop: the view of the node that stays is looked at again
      exact unmapLoop_round (removeTail_sole h) (peekTail_owns h) rfl
    · intro call hcall
      rw [List.mem_singleton.mp hcall]
      exact onLiveNode_owns h
  | cons second rest ih =>
    intro first l h
    obtain ⟨l₁, hremove, h₁⟩ := removeTail_several h
    obtain ⟨calls, l', hloop, hviews, hlive, hnewest⟩ := ih h₁
    refine ⟨⟨first.2, l⟩ :: calls, l', fun fuel hfuel => ?_, congrArg (first.2 :: ·) hviews, ?_, hnewest⟩
    · rw [List.length_cons] at hfuel
      obtain ⟨fuel, rfl⟩ : ∃ m, fuel = m + 1 := ⟨fuel - 1, by omega⟩
      exact unmapLoop_round hremove (peekTail_owns h₁) (hloop fuel (by omega))
    · intro call hcall
      rcases List.mem_cons.mp hcall with rfl | hcall
      · exact onLiveNode_owns h
      · exact hlive call hcall

/-- The loop with its first `PeekTail`; without connections it is left at once. -/
theorem unmapViews_owns {adds : List (Handle × Nat)} (h : Owns l (connections adds)) :
    ∃ calls l', (∀ fuel, adds.length < fuel → unmapViews fuel l = .ok (calls, l'))
      ∧ calls.map UnmapCall.pBuf = adds.map Prod.snd
      ∧ (∀ call ∈ calls, call.OnLiveNode) ∧ ∃ left, Owns l' left ∧ left.length ≤ 1 := by
  cases adds with
  | nil =>
    refine ⟨[], l, fun fuel hfuel => ?_, rfl, by simp, [], h, Nat.zero_le _⟩
    obtain ⟨fuel, rfl⟩ : ∃ m, fuel = m + 1 := ⟨fuel - 1, by simp at hfuel; omega⟩
    rw [unmapViews, ConnectionList.peekTail_denotes h.denotes]
    rfl
  | cons first rest =>
    obtain ⟨calls, l', hloop, hviews, hlive, newest, h'⟩ := unmapLoop_owns rest h
    refine ⟨calls, l', fun fuel hfuel => ?_, hviews, hlive, [newest], h', Nat.le_refl _⟩
    rw [unmapViews, peekTail_owns h, ok_bind]
    exact hloop fuel hfuel

/-- **Shutdown.** After any calls of `Add` the loop ends, whatever fuel it has beyond its rounds: it
unmaps the view of each connection once, in the order of the calls and never on a freed node. Then
`~ConnectionList` deletes each node that remains once, and none is left. -/
theorem unmaps_each_once (adds : List (Handle × Nat)) :
    ∃ l calls l₁ deleted l₂, addAll .empty adds = .ok l
      ∧ (∀ fuel, adds.length < fuel → unmapViews fuel l = .ok (calls, l₁))
      ∧ calls.map UnmapCall.pBuf = adds.map Prod.snd
      ∧ (∀ call ∈ calls, call.OnLiveNode)
      ∧ (∀ fuel, 1 ≤ fuel → ConnectionList.destroy fuel l₁ = .ok (deleted, l₂))
      ∧ deleted.Nodup ∧ (∀ q, q ∈ deleted ↔ l₁.heap.cell q ≠ none)
      ∧ ∀ q, l₂.heap.cell q = none := by
  obtain ⟨l, hadd, h⟩ := addAll_owns adds
  obtain ⟨calls, l₁, hloop, hviews, hlive, left, h₁, hleft⟩ := unmapViews_owns h
  obtain ⟨deleted, l₂, hdestroy, hdeleted⟩ := destroyNodes_owns h₁
  exact ⟨l, calls, l₁, deleted, l₂, hadd, hloop, hviews, hlive,
    fun fuel hfuel => hdestroy fuel (hleft.trans hfuel), hdeleted⟩

/-! ## The statements of the destructor

`Twitter.Shutdown` has the same loop statement by statement, since the thread may run in between.
Left alone, four of these statements make one round. -/

/-- The mapped views after calls of `UnmapViewOfFile`. -/
def unmapAll (mapped : Nat → Bool) (views : List Nat) : Nat → Bool :=
  views.foldl (fun mapped view => Function.update mapped view false) mapped

/-- A view that is among the calls is unmapped, and no call maps one. -/
theorem unmapAll_apply (views : List Nat) (a : Nat) :
    ∀ {mapped : Nat → Bool}, a ∈ views ∨ mapped a = false → unmapAll mapped views a = false := by
  induction views with
  | nil => exact fun h => h.resolve_left List.not_mem_nil
  | cons view views ih =>
    intro mapped h
    refine ih ?_
    by_cases ha : a = view
    · subst ha
      exact Or.inr (Function.update_self _ _ _)
    · rcases h with hmem | hunmapped
      · exact Or.inl ((List.mem_cons.mp hmem).resolve_left ha)
      · exact Or.inr ((Function.update_of_ne ha _ _).trans hunmapped)

namespace SharedMemory

variable {s s' : SharedMemory} {view : Nat} {flag : Bool} {next : Option Nat}

/-- The destructor makes its next statement. -/
theorem run_destructor (h : s.stepDestructor = .ok s') (n : Nat) :
    s.run (List.replicate (n + 1) .destructor) = s'.run (List.replicate n .destructor) := by
  rw [run, List.replicate_succ, List.foldlM_cons, step, h, ok_bind]
  rfl

/-- Four statements are one round of the loop. -/
theorem stepDestructor_round (hl : s.pConnectionList = some l)
    (hpc : s.destructor = .testLoop true (some view)) (hremove : l.removeTail = .ok (flag, l₁))
    (hpeek : l₁.peekTail = .ok next) (n : Nat) :
    s.run (List.replicate (n + 4) .destructor)
      = SharedMemory.run { s with
          mapped := Function.update s.mapped view false
          pConnectionList := some l₁
          destructor := .testLoop flag next } (List.replicate n .destructor) := by
  -- the test of the loop, and its three statements
  have htest : s.stepDestructor = .ok { s with destructor := .unmapView view } := by
    rw [stepDestructor, hpc]
  have hunmap : stepDestructor { s with destructor := .unmapView view }
      = .ok { s with
          mapped := Function.update s.mapped view false
          destructor := .removeTail } := rfl
  have hremoved : stepDestructor { s with
          mapped := Function.update s.mapped view false
          destructor := .removeTail }
      = .ok { s with
          mapped := Function.update s.mapped view false
          pConnectionList := some l₁
          destructor := .peekTail flag } :=
    stepDestructor_removeTail rfl (connectionList_some hl) hremove
  have hpeeked : stepDestructor { s with
          mapped := Function.update s.mapped view false
          pConnectionList := some l₁
          destructor := .peekTail flag }
      = .ok { s with
          mapped := Function.update s.mapped view false
          pConnectionList := some l₁
          destructor := .testLoop flag next } :=
    stepDestructor_peekTail rfl rfl hpeek
  rw [run_destructor htest, run_destructor hunmap, run_destructor hremoved, run_destructor hpeeked]

/-- The loop is left by one statement. -/
theorem run_leave (hl : s.pConnectionList = some l)
    (hstep : s.stepDestructor = .ok { s with destructor := .closeThread }) :
    s.run (List.replicate 1 .destructor)
      = .ok { s with pConnectionList := some l, destructor := .closeThread } := by
  rw [run_destructor hstep, ← hl]
  rfl

/-- **The loop, one statement at a time.** Without the thread in between, the statements of the
destructor make the calls of `unmapLoop`. Induction on the fuel. -/
theorem run_unmapLoop (fuel : Nat) :
    ∀ {flag : Bool} {next : Option Nat} {l l' : ConnectionList} {calls : List UnmapCall},
      unmapLoop fuel flag next l = .ok (calls, l') →
      ∀ {s : SharedMemory}, s.pConnectionList = some l → s.destructor = .testLoop flag next →
        s.run (List.replicate (4 * calls.length + 1) .destructor)
          = .ok { s with
              mapped := unmapAll s.mapped (calls.map UnmapCall.pBuf)
              pConnectionList := some l'
              destructor := .closeThread } := by
  induction fuel with
  | zero => exact fun h => nomatch h
  | succ fuel ih =>
    intro flag next l l' calls h s hl hpc
    cases flag with
    | false =>
      obtain ⟨rfl, rfl⟩ := Prod.mk.inj (Except.ok.inj h)
      exact run_leave hl (by rw [stepDestructor, hpc])
    | true =>
      cases next with
      | none =>
        obtain ⟨rfl, rfl⟩ := Prod.mk.inj (Except.ok.inj h)
        exact run_leave hl (by rw [stepDestructor, hpc])
      | some view =>
        -- a round: what the loop got from the list, the statements get too
        obtain ⟨⟨flag, l₁⟩, hremove, h⟩ := of_bind_eq_ok h
        obtain ⟨next, hpeek, h⟩ := of_bind_eq_ok h
        obtain ⟨⟨calls, l₂⟩, hrest, h⟩ := of_bind_eq_ok h
        obtain ⟨rfl, rfl⟩ := Prod.mk.inj (Except.ok.inj h)
        rw [List.length_cons, show 4 * (calls.length + 1) + 1 = 4 * calls.length + 1 + 4 by omega,
          stepDestructor_round hl hpc hremove hpeek]
        exact ih hrest rfl rfl

/-- **Nothing stays mapped.** When the destructor has left the loop, no view of a connection is
mapped any more. -/
theorem views_unmapped (adds : List (Handle × Nat)) (hl : s.pConnectionList = some l)
    (h : Owns l (connections adds)) (hpc : s.destructor = .peekTail true) :
    ∃ n s', s.run (List.replicate n .destructor) = .ok s' ∧ s'.destructor = .closeThread
      ∧ ∀ add ∈ adds, s'.mapped add.2 = false := by
  obtain ⟨calls, l', hviews, hcalls, -, -⟩ := unmapViews_owns h
  obtain ⟨next, hpeek, hloop⟩ := of_bind_eq_ok (hviews (adds.length + 1) (Nat.lt_succ_self _))
  have hstep := stepDestructor_peekTail hpc (connectionList_some hl) hpeek
  refine ⟨_, _, (run_destructor hstep _).trans (run_unmapLoop _ hloop hl rfl), rfl, fun add hadd => ?_⟩
  apply unmapAll_apply
  rw [hcalls]
  exact Or.inl (List.mem_map_of_mem hadd)

end SharedMemory

end OsLab.Twitter
