import OsLab.Twitter.ConnectionList
import OsLab.Twitter.Mailbox

/-!
# OsLab.Twitter.Shutdown — the destructors against the monitor thread

`delete` of a `MailslotMrg` runs `~MailslotMrg` and then `~SharedMemoryIO`, while `thread_func` goes
on. The destructor sets `running_flag` to `FALSE` and goes on at once: it closes the handle of the
thread and does not wait for it. A step is one statement of either side, or another process writing
to the mailbox.

* **`shutdown_of_permitted`**: nothing goes wrong in a run in which the server buffer is unmapped
  and `pMsgList` deleted only while the thread is between two rounds.
* **`monitor_outlives`**: the thread tests the flag, the destructor unmaps, the thread reads.
-/

namespace OsLab.Twitter

open DoublyLinked Fallible GuardedRun

/-! ## The two sides

The thread and the destructors are two programs over the same variables, and a step is one statement
of either. Nothing is taken for granted about who comes next. A view or a list that has gone is
still pointed to, so a statement that uses it is a fault. -/

/-- The statement that `thread_func` executes next, `MonitorIncomingData` included. -/
inductive ThreadPc where
  | testFlag      -- `while (running_flag)`
  | readFrom      -- `Read(&data, local_serverBuf, sizeof(int)); if (data != NO_DATA)`
  | copyCell      -- `Read(pTempReadBuffer->data, local_serverBuf, MaxMessageSize)`
  | put           -- `if (IsValidData()) pMsgList->Put(pTempReadBuffer->data)`
  | emptyMailbox  -- `EmptyMailbox(local_serverBuf)`
  | sleep         -- `Sleep(1)`
  | exited
  deriving DecidableEq, Repr

/-- The statement that the destructors execute next, with the locals of `~SharedMemoryIO`. -/
inductive DestructorPc where
  | closeMailbox        -- `CloseHandle(hMailBox[thisMailslot])`
  | deleteLocalBuffers  -- `delete pLocalReadBuffer; delete pLocalWriteBuffer`
  | clearFlag           -- `running_flag = FALSE`
  | peekTail (flag : Bool)                      -- `pBuf = pConnectionList->PeekTail()`
  | testLoop (flag : Bool) (pBuf : Option Nat)  -- `while (flag && pBuf != NULL)`
  | unmapView (pBuf : Nat)                      -- `UnmapViewOfFile(pBuf)`
  | removeTail                                  -- `flag = pConnectionList->RemoveTail()`
  | closeThread         -- `if (pThread != NULL) CloseHandle(pThread)`
  | deleteMsgList       -- `delete pMsgList`
  | deleteConnectionList  -- `delete pConnectionList`
  | done
  deriving DecidableEq, Repr

/-- Before `running_flag = FALSE`. -/
def DestructorPc.BeforeFlag : DestructorPc → Prop
  | closeMailbox | deleteLocalBuffers | clearFlag => True
  | _ => False

/-- `SharedMemoryIO`, with the globals both sides use. A view is mapped or not, by its address; a
list that has been deleted is `none`. -/
structure SharedMemory where
  runningFlag : Bool
  serverBuf : Nat
  mapped : Nat → Bool
  cell : MailBoxFormat
  pTempReadBuffer : MailBoxMessage
  pMsgList : Option MsgList
  pConnectionList : Option ConnectionList
  thread : ThreadPc
  destructor : DestructorPc

/-- What stops the process. -/
inductive ShutdownFault where
  /-- An access to the server buffer after it has been unmapped. -/
  | unmapped
  /-- `Put` on the deleted `pMsgList`. -/
  | putOnDeleted
  /-- A use of the deleted `pConnectionList`. -/
  | connectionsDeleted
  | list (fault : Fault)
  deriving DecidableEq, Repr

inductive ShutdownStep where
  | thread
  | destructor
  /-- Another process writes to the mailbox. -/
  | arrive (msg : MailBoxFormat)

/-- A list operation in the process. -/
def onList {α : Type} : Except Fault α → Except ShutdownFault α
  | .error fault => .error (.list fault)
  | .ok a => .ok a

namespace SharedMemory

/-- The cell through the server buffer. -/
def view (s : SharedMemory) : Except ShutdownFault MailBoxFormat :=
  if s.mapped s.serverBuf then .ok s.cell else .error .unmapped

def msgList (s : SharedMemory) : Except ShutdownFault MsgList :=
  match s.pMsgList with
  | none => .error .putOnDeleted
  | some q => .ok q

def connectionList (s : SharedMemory) : Except ShutdownFault ConnectionList :=
  match s.pConnectionList with
  | none => .error .connectionsDeleted
  | some l => .ok l

/-- One statement of `thread_func`. -/
def stepThread (s : SharedMemory) : Except ShutdownFault SharedMemory :=
  match s.thread with
  | .testFlag => .ok { s with thread := if s.runningFlag then .readFrom else .exited }
  | .readFrom => do
    let cell ← s.view
    .ok { s with thread := if cell.FROM ≠ noData then .copyCell else .sleep }
  | .copyCell => do
    let cell ← s.view
    .ok { s with pTempReadBuffer := { data := cell }, thread := .put }
  | .put =>
    if s.pTempReadBuffer.isValidData then do
      let q ← s.msgList
      let q ← onList (q.put s.pTempReadBuffer.data)
      .ok { s with pMsgList := some q, thread := .emptyMailbox }
    else .ok { s with thread := .sleep }
  | .emptyMailbox => do
    let cell ← s.view
    .ok { s with cell := { cell with FROM := noData }, thread := .sleep }
  | .sleep => .ok { s with thread := .testFlag }
  | .exited => .ok s

/-- One statement of the destructors. -/
def stepDestructor (s : SharedMemory) : Except ShutdownFault SharedMemory :=
  match s.destructor with
  | .closeMailbox => .ok { s with destructor := .deleteLocalBuffers }
  | .deleteLocalBuffers => .ok { s with destructor := .clearFlag }
  | .clearFlag => .ok { s with runningFlag := false, destructor := .peekTail true }
  | .peekTail flag => do
    let l ← s.connectionList
    let pBuf ← onList l.peekTail
    .ok { s with destructor := .testLoop flag pBuf }
  | .testLoop true (some pBuf) => .ok { s with destructor := .unmapView pBuf }
  | .testLoop _ _ => .ok { s with destructor := .closeThread }
  | .unmapView pBuf =>
    .ok { s with mapped := Function.update s.mapped pBuf false, destructor := .removeTail }
  | .removeTail => do
    let l ← s.connectionList
    let (flag, l) ← onList l.removeTail
    .ok { s with pConnectionList := some l, destructor := .peekTail flag }
  | .closeThread => .ok { s with destructor := .deleteMsgList }
  | .deleteMsgList => .ok { s with pMsgList := none, destructor := .deleteConnectionList }
  | .deleteConnectionList => .ok { s with pConnectionList := none, destructor := .done }
  | .done => .ok s

def step (s : SharedMemory) : ShutdownStep → Except ShutdownFault SharedMemory
  | .thread => s.stepThread
  | .destructor => s.stepDestructor
  | .arrive msg => .ok { s with cell := msg }

def run (s : SharedMemory) (steps : List ShutdownStep) : Except ShutdownFault SharedMemory :=
  steps.foldlM step s

/-- When the destructor is called: the monitor is going, and the server buffer is one of the views
of the connection list. -/
structure Running (s : SharedMemory) : Prop where
  runningFlag : s.runningFlag = true
  mapped : s.mapped s.serverBuf = true
  messages : ∃ q xs, s.pMsgList = some q ∧ Denotes q.nodes xs
  connections : ∃ l xs, s.pConnectionList = some l ∧ Denotes l xs
    ∧ ∃ connection ∈ xs, connection.pBuf = some s.serverBuf
  destructor : s.destructor = .closeMailbox

/-- Between two rounds of the monitor, or after the last one. -/
def BetweenRounds (s : SharedMemory) : Prop :=
  s.thread = .testFlag ∨ s.thread = .sleep ∨ s.thread = .exited

/-- The destructor takes nothing away in the middle of a round. -/
def Waits (s : SharedMemory) : ShutdownStep → Prop
  | .destructor => s.destructor = .unmapView s.serverBuf ∨ s.destructor = .deleteMsgList →
    s.BetweenRounds
  | _ => True

instance (s : SharedMemory) : Decidable s.BetweenRounds :=
  inferInstanceAs (Decidable (s.thread = .testFlag ∨ s.thread = .sleep ∨ s.thread = .exited))

/-- Whether the destructor waits can be computed. -/
instance Waits.decidable (s : SharedMemory) : (event : ShutdownStep) → Decidable (s.Waits event)
  | .destructor =>
    inferInstanceAs (Decidable (s.destructor = .unmapView s.serverBuf ∨ s.destructor = .deleteMsgList →
      s.BetweenRounds))
  | .thread | .arrive _ => isTrue trivial

/-! ## The invariant

A round of the monitor reads the server buffer and puts into `pMsgList`. The destructors take both
away, but not before they have cleared the flag; so what has to be known is whether a round can
still be going on. -/

/-- While a round can begin or is going on, the server buffer is mapped and `pMsgList` is there; a
round cannot begin any more once the flag is cleared. -/
structure Sound (s : SharedMemory) : Prop where
  needed : s.runningFlag = true ∨ ¬ s.BetweenRounds →
    s.mapped s.serverBuf = true ∧ ∃ q xs, s.pMsgList = some q ∧ Denotes q.nodes xs
  cleared : s.runningFlag = true → s.destructor.BeforeFlag
  connections : (∃ l xs, s.pConnectionList = some l ∧ Denotes l xs) ∨ s.destructor = .done

/-- When the destructor is called, everything is there. -/
theorem Running.sound {s : SharedMemory} (h : s.Running) : s.Sound where
  needed := fun _ => ⟨h.mapped, h.messages⟩
  cleared := fun _ => by
    rw [h.destructor]
    trivial
  connections := by
    obtain ⟨l, xs, hl, hden, -⟩ := h.connections
    exact Or.inl ⟨l, xs, hl, hden⟩

variable {s : SharedMemory}

theorem onList_ok {α : Type} {x : Except Fault α} {a : α} (h : x = .ok a) : onList x = .ok a := by
  rw [h]
  rfl

/-- In the middle of a round the server buffer can be read. -/
theorem Sound.view_eq (h : s.Sound) (hround : ¬ s.BetweenRounds) : s.view = .ok s.cell := by
  rw [view, if_pos (h.needed (Or.inr hround)).1]

/-- One statement of the thread. One case for each statement. -/
theorem Sound.stepThread (h : s.Sound) : ∃ s', s.stepThread = .ok s' ∧ s'.Sound := by
  cases hthread : s.thread with
  | testFlag =>
    refine ⟨{ s with thread := if s.runningFlag then .readFrom else .exited }, ?_, ?_, h.cleared,
      h.connections⟩
    · rw [SharedMemory.stepThread, hthread]
    · intro hneeded
      -- without the flag the thread ends
      rcases Bool.eq_false_or_eq_true s.runningFlag with hflag | hflag
      · exact h.needed (Or.inl hflag)
      · rcases hneeded with hset | hround
        · exact absurd (hflag.symm.trans hset) Bool.false_ne_true
        · exact absurd (Or.inr (Or.inr (by simp [hflag]))) hround
  | readFrom =>
    have hround : ¬ s.BetweenRounds := by simp [BetweenRounds, hthread]
    refine ⟨{ s with thread := if s.cell.FROM ≠ noData then .copyCell else .sleep }, ?_,
      fun _ => h.needed (Or.inr hround), h.cleared, h.connections⟩
    rw [SharedMemory.stepThread, hthread]
    dsimp only
    rw [h.view_eq hround, ok_bind]
  | copyCell =>
    have hround : ¬ s.BetweenRounds := by simp [BetweenRounds, hthread]
    refine ⟨{ s with pTempReadBuffer := { data := s.cell }, thread := .put }, ?_,
      fun _ => h.needed (Or.inr hround), h.cleared, h.connections⟩
    rw [SharedMemory.stepThread, hthread]
    dsimp only
    rw [h.view_eq hround, ok_bind]
  | put =>
    have hround : ¬ s.BetweenRounds := by simp [BetweenRounds, hthread]
    obtain ⟨hmapped, q, xs, hq, hden⟩ := h.needed (Or.inr hround)
    by_cases hvalid : s.pTempReadBuffer.isValidData = true
    · obtain ⟨nodes, hpush, hden'⟩ := pushNode_denotes hden (.ofFormat s.pTempReadBuffer.data)
      have hput : q.put s.pTempReadBuffer.data = .ok ⟨nodes, q.count + 1⟩ := by
        rw [MsgList.put, hpush, ok_bind]
      refine ⟨{ s with pMsgList := some ⟨nodes, q.count + 1⟩, thread := .emptyMailbox }, ?_,
        fun _ => ⟨hmapped, _, _, rfl, hden'⟩, h.cleared, h.connections⟩
      rw [SharedMemory.stepThread, hthread]
      dsimp only
      rw [if_pos hvalid, msgList, hq]
      dsimp only
      rw [ok_bind, onList_ok hput, ok_bind]
    · refine ⟨{ s with thread := .sleep }, ?_, fun _ => h.needed (Or.inr hround), h.cleared,
        h.connections⟩
      rw [SharedMemory.stepThread, hthread]
      dsimp only
      rw [if_neg hvalid]
  | emptyMailbox =>
    have hround : ¬ s.BetweenRounds := by simp [BetweenRounds, hthread]
    refine ⟨{ s with cell := { s.cell with FROM := noData }, thread := .sleep }, ?_,
      fun _ => h.needed (Or.inr hround), h.cleared, h.connections⟩
    rw [SharedMemory.stepThread, hthread]
    dsimp only
    rw [h.view_eq hround, ok_bind]
  | sleep =>
    refine ⟨{ s with thread := .testFlag }, ?_, fun hneeded => ?_, h.cleared, h.connections⟩
    · rw [SharedMemory.stepThread, hthread]
    · exact h.needed (Or.inl (hneeded.resolve_right (not_not_intro (Or.inl rfl))))
  | exited =>
    refine ⟨s, ?_, h⟩
    rw [SharedMemory.stepThread, hthread]

/-- A statement of the destructors that only moves on. -/
theorem Sound.moveOn (h : s.Sound) {pc : DestructorPc} (hafter : s.destructor.BeforeFlag → pc.BeforeFlag)
    (hopen : s.destructor ≠ .done) : { s with destructor := pc }.Sound where
  needed := h.needed
  cleared := fun hflag => hafter (h.cleared hflag)
  connections := Or.inl (h.connections.resolve_right hopen)

theorem connectionList_some {l : ConnectionList} (hl : s.pConnectionList = some l) :
    s.connectionList = .ok l := by
  rw [connectionList, hl]

/-- The connection list is there until the last statement. -/
theorem Sound.connectionList_eq (h : s.Sound) (hopen : s.destructor ≠ .done) :
    ∃ l xs, s.connectionList = .ok l ∧ Denotes l xs := by
  obtain ⟨l, xs, hl, hden⟩ := h.connections.resolve_right hopen
  exact ⟨l, xs, connectionList_some hl, hden⟩

/-- The view of the tail, which may be null. -/
theorem stepDestructor_peekTail {l : ConnectionList} {flag : Bool} {pBuf : Option Nat}
    (hpc : s.destructor = .peekTail flag) (hl : s.connectionList = .ok l)
    (hpeek : l.peekTail = .ok pBuf) :
    s.stepDestructor = .ok { s with destructor := .testLoop flag pBuf } := by
  rw [SharedMemory.stepDestructor, hpc]
  dsimp only
  rw [hl, ok_bind, onList_ok hpeek, ok_bind]

/-- The tail is removed, if it is not the only node. -/
theorem stepDestructor_removeTail {l l' : ConnectionList} {flag : Bool}
    (hpc : s.destructor = .removeTail) (hl : s.connectionList = .ok l)
    (hremove : l.removeTail = .ok (flag, l')) :
    s.stepDestructor
      = .ok { s with pConnectionList := some l', destructor := .peekTail flag } := by
  rw [SharedMemory.stepDestructor, hpc]
  dsimp only
  rw [hl, ok_bind, onList_ok hremove]
  rfl

/-- One statement of the destructors that waits. One case for each statement. -/
theorem Sound.stepDestructor (h : s.Sound) (hwaits : s.Waits .destructor) :
    ∃ s', s.stepDestructor = .ok s' ∧ s'.Sound := by
  -- once the flag is cleared it stays so
  have hcleared (hafter : ¬ s.destructor.BeforeFlag) : s.runningFlag ≠ true :=
    fun hflag => hafter (h.cleared hflag)
  cases hpc : s.destructor with
  | closeMailbox =>
    refine ⟨{ s with destructor := .deleteLocalBuffers }, ?_, h.moveOn (fun _ => trivial) ?_⟩
    · rw [SharedMemory.stepDestructor, hpc]
    · simp [hpc]
  | deleteLocalBuffers =>
    refine ⟨{ s with destructor := .clearFlag }, ?_, h.moveOn (fun _ => trivial) ?_⟩
    · rw [SharedMemory.stepDestructor, hpc]
    · simp [hpc]
  | clearFlag =>
    refine ⟨{ s with runningFlag := false, destructor := .peekTail true }, ?_, ?_⟩
    · rw [SharedMemory.stepDestructor, hpc]
    · refine ⟨fun hneeded => ?_, fun hflag => absurd hflag Bool.false_ne_true, ?_⟩
      · exact h.needed (Or.inr (hneeded.resolve_left Bool.false_ne_true))
      · exact Or.inl (h.connections.resolve_right (by simp [hpc]))
  | peekTail flag =>
    have hopen : s.destructor ≠ .done := by simp [hpc]
    obtain ⟨l, xs, hl, hden⟩ := h.connectionList_eq hopen
    refine ⟨_, stepDestructor_peekTail hpc hl (ConnectionList.peekTail_denotes hden),
      h.moveOn (fun hbefore => ?_) hopen⟩
    rw [hpc] at hbefore
    exact hbefore.elim
  | testLoop flag pBuf =>
    have hopen : s.destructor ≠ .done := by simp [hpc]
    have hafter (pc : DestructorPc) : s.destructor.BeforeFlag → pc.BeforeFlag := by
      rw [hpc]
      exact False.elim
    cases flag with
    | false =>
      refine ⟨{ s with destructor := .closeThread }, ?_, h.moveOn (hafter _) hopen⟩
      rw [SharedMemory.stepDestructor, hpc]
    | true =>
      cases pBuf with
      | none =>
        refine ⟨{ s with destructor := .closeThread }, ?_, h.moveOn (hafter _) hopen⟩
        rw [SharedMemory.stepDestructor, hpc]
      | some pBuf =>
        refine ⟨{ s with destructor := .unmapView pBuf }, ?_, h.moveOn (hafter _) hopen⟩
        rw [SharedMemory.stepDestructor, hpc]
  | unmapView pBuf =>
    refine ⟨{ s with mapped := Function.update s.mapped pBuf false, destructor := .removeTail }, ?_, ?_⟩
    · rw [SharedMemory.stepDestructor, hpc]
    · have hflag := hcleared (by rw [hpc]; exact id)
      refine ⟨fun hneeded => ?_, fun hset => absurd hset hflag, ?_⟩
      · have hround := hneeded.resolve_left hflag
        -- in the middle of a round it is the view of another connection
        have hother : pBuf ≠ s.serverBuf := by
          rintro rfl
          exact hround (hwaits (Or.inl hpc))
        obtain ⟨hmapped, hmessages⟩ := h.needed (Or.inr hround)
        refine ⟨?_, hmessages⟩
        show Function.update s.mapped pBuf false s.serverBuf = true
        rw [Function.update_of_ne (Ne.symm hother), hmapped]
      · exact Or.inl (h.connections.resolve_right (by simp [hpc]))
  | removeTail =>
    have hopen : s.destructor ≠ .done := by simp [hpc]
    have hflag := hcleared (by rw [hpc]; exact id)
    obtain ⟨l, xs, hl, hden⟩ := h.connectionList_eq hopen
    obtain ⟨l', hremove, hden'⟩ := ConnectionList.removeTail_denotes hden
    exact ⟨_, stepDestructor_removeTail hpc hl hremove, h.needed, fun hset => absurd hset hflag,
      Or.inl ⟨l', _, rfl, hden'⟩⟩
  | closeThread =>
    refine ⟨{ s with destructor := .deleteMsgList }, ?_, h.moveOn (fun hbefore => ?_) ?_⟩
    · rw [SharedMemory.stepDestructor, hpc]
    · rw [hpc] at hbefore
      exact hbefore.elim
    · simp [hpc]
  | deleteMsgList =>
    refine ⟨{ s with pMsgList := none, destructor := .deleteConnectionList }, ?_, ?_⟩
    · rw [SharedMemory.stepDestructor, hpc]
    · have hflag := hcleared (by rw [hpc]; exact id)
      refine ⟨fun hneeded => ?_, fun hset => absurd hset hflag, ?_⟩
      · exact absurd (hwaits (Or.inr hpc)) (hneeded.resolve_left hflag)
      · exact Or.inl (h.connections.resolve_right (by simp [hpc]))
  | deleteConnectionList =>
    refine ⟨{ s with pConnectionList := none, destructor := .done }, ?_, h.needed, fun hset => ?_,
      Or.inr rfl⟩
    · rw [SharedMemory.stepDestructor, hpc]
    · exact absurd hset (hcleared (by rw [hpc]; exact id))
  | done =>
    refine ⟨s, ?_, h⟩
    rw [SharedMemory.stepDestructor, hpc]

/-- One step of either side, or a message from outside. -/
theorem Sound.step {event : ShutdownStep} (hwaits : s.Waits event) (h : s.Sound) :
    ∃ s', s.step event = .ok s' ∧ s'.Sound := by
  cases event with
  | thread => exact h.stepThread
  | destructor => exact h.stepDestructor hwaits
  | arrive msg => exact ⟨{ s with cell := msg }, rfl, h.needed, h.cleared, h.connections⟩

/-- **Headline.** In every run in which the destructor unmaps the server buffer and deletes
`pMsgList` only between two rounds of the monitor, no step is an access to what is gone. -/
theorem shutdown_of_permitted (hs : s.Running) {steps : List ShutdownStep}
    (hwaits : Permitted SharedMemory.step Waits s steps) : ∃ s', s.run steps = .ok s' := by
  obtain ⟨s', hrun, -⟩ := Permitted.returns (P := Sound) (fun _ _ hevent h => h.step hevent) steps
    hs.sound hwaits
  exact ⟨s', hrun⟩

/-! ## Without the wait

In the program the destructors do not wait for the thread. Two short runs of a process with one
connection show the difference: in one the destructors happen to find the thread between two rounds,
in the other they do not. -/

/-- A process with its own mailbox, mapped at `0x1000`, and no other connection. -/
def lone (cell : MailBoxFormat) : SharedMemory where
  runningFlag := true
  serverBuf := 0x1000
  mapped := fun address => address == 0x1000
  cell := cell
  pTempReadBuffer := .allocateMsg
  pMsgList := some .empty
  pConnectionList := some
    { heap := { cell := Function.update (fun _ => none) 0 (some ⟨none, ⟨7, some 0x1000⟩, none⟩), brk := 1 }
      head := some 0, tail := some 0 }
  thread := .testFlag
  destructor := .closeMailbox

/-- That process is running, whatever is in its mailbox. -/
theorem lone_running (cell : MailBoxFormat) : (lone cell).Running where
  runningFlag := rfl
  mapped := rfl
  messages := ⟨_, [], rfl, denotes_empty⟩
  connections := ⟨_, [⟨7, some 0x1000⟩], rfl,
    ⟨[(0, ⟨7, some 0x1000⟩)], ⟨⟨rfl, trivial⟩, by simp, by simp, rfl, rfl⟩, rfl⟩, _,
    List.mem_singleton_self _, rfl⟩
  destructor := rfl

/-- A shutdown beside the monitor. It goes a whole round with the message in the mailbox; the
destructors run up to `running_flag = FALSE`; another message arrives; the thread tests the flag,
finds it cleared and ends; and the destructors go on to their end. -/
def orderlySteps : List ShutdownStep :=
  List.replicate 6 .thread ++ List.replicate 3 .destructor ++ [.arrive (blankMessage 2), .thread]
    ++ List.replicate 9 .destructor

/-- That run is permitted, and no step of it faults. -/
theorem shutdown_of_permitted_orderly :
    Permitted SharedMemory.step Waits (lone (blankMessage 1)) orderlySteps
      ∧ ∃ s', (lone (blankMessage 1)).run orderlySteps = .ok s' := by
  have hwaits : Permitted SharedMemory.step Waits (lone (blankMessage 1)) orderlySteps := by
    decide +kernel
  exact ⟨hwaits, shutdown_of_permitted (lone_running _) hwaits⟩

/-- **Nothing joins the thread.** It tests the flag, the destructor unmaps the server buffer, the
thread reads it; and with a message in its hands it calls `Put` on the deleted list. -/
theorem monitor_outlives :
    (lone (blankMessage 1)).run (.thread :: List.replicate 6 .destructor ++ [.thread])
        = .error .unmapped
      ∧ (lone (blankMessage 1)).run
        (.thread :: .thread :: .thread :: List.replicate 11 .destructor ++ [.thread])
        = .error .putOnDeleted
      ∧ ¬ ∀ (s : SharedMemory) (steps : List ShutdownStep), s.Running →
        s.run steps ≠ .error .unmapped ∧ s.run steps ≠ .error .putOnDeleted := by
  have hunmapped : (lone (blankMessage 1)).run
      (.thread :: List.replicate 6 .destructor ++ [.thread]) = .error .unmapped := rfl
  exact ⟨hunmapped, rfl, fun hall => (hall _ _ (lone_running _)).1 hunmapped⟩

end SharedMemory

end OsLab.Twitter
