import OsLab.NodeList

/-!
# OsLab.Twitter.MsgList — the queue of received messages

The monitor thread `Put`s what it finds in the mailbox into `pMsgList`, and `myReadFile`
`Get`s from it while `GetCount() > 0`.

* **`Session`**: a list under a sequence of `Put`s and reads, with the messages put and the
  messages delivered so far.
* **`Holds`**: what the list holds for the messages not yet read. `Get` leaves a sole node in
  place, so from the moment a read empties the queue the list also holds, in front of them,
  the last message read: the `stale` one.
* **`InStep`**: the sequences on which the stale message never shows.
* **`read_holds`**, **`put_holds`**: one call; **`run_holds`**: a whole sequence.
* **`fifo_iff_inStep`**: the deliveries are a prefix of the messages put exactly on the
  sequences `InStep`; the count and the outcome of reads are right on all of them.
-/

namespace OsLab.Twitter

open DoublyLinked Fallible

/-! ## Messages

A message as it lies in the mailbox, `MailBoxFormat`, and the object around it. `CopyTo` and
`CopyFrom` assign every field. -/

/-- `BUFFER_LENGTH`, in `wchar_t`s. -/
abbrev bufferLength : Nat := 96

structure DataFormat where
  buffer : Vector UInt16 bufferLength
  id : Int32
  index : Int32
  nextSize : Int32
  messageCount : Int32
  deriving DecidableEq, Inhabited

structure MailBoxFormat where
  FROM : Int32
  pData : DataFormat
  deriving DecidableEq, Inhabited

structure MailBoxMessage where
  data : MailBoxFormat
  deriving DecidableEq

namespace MailBoxMessage

/-- `CopyTo`: what `*msg` is afterwards. The block copy of the buffer is taken as the copy of
the buffer's own cells; `Twitter.MessageBytes` has all the bytes it writes. -/
def copyTo (this : MailBoxMessage) (msg : MailBoxFormat) : MailBoxFormat :=
  { msg with
    FROM := this.data.FROM
    pData := { msg.pData with
      id := this.data.pData.id
      index := this.data.pData.index
      nextSize := this.data.pData.nextSize
      messageCount := this.data.pData.messageCount
      buffer := this.data.pData.buffer } }

/-- `CopyFrom`: what the object is afterwards. -/
def copyFrom (this : MailBoxMessage) (msg : MailBoxFormat) : MailBoxMessage :=
  { data := { this.data with
      FROM := msg.FROM
      pData := { this.data.pData with
        id := msg.pData.id
        index := msg.pData.index
        nextSize := msg.pData.nextSize
        messageCount := msg.pData.messageCount
        buffer := msg.pData.buffer } } }

/-- `AllocateMsg`. `malloc` leaves the fields indeterminate; `CopyFrom` assigns all of them
before any is read. -/
def allocateMsg : MailBoxMessage := { data := default }

/-- `MailBoxMessage(MailBoxFormat* msg)`. -/
def ofFormat (msg : MailBoxFormat) : MailBoxMessage := allocateMsg.copyFrom msg

/-- The object of a message has the fields of the message. -/
@[simp] theorem ofFormat_data (msg : MailBoxFormat) : (ofFormat msg).data = msg := rfl

/-- `CopyTo` leaves nothing of what was there. -/
@[simp] theorem copyTo_eq (this : MailBoxMessage) (msg : MailBoxFormat) :
    this.copyTo msg = this.data := rfl

end MailBoxMessage

/-! ## The list

The nodes are those of `LinkedList.cpp`, which `NodeList` has; `count` is kept beside them and is
not the number of nodes. -/

/-- `MsgList`: the nodes between `Head` and `Tail`, and the separate `count`. -/
structure MsgList where
  nodes : DList MailBoxMessage
  count : Int

namespace MsgList

def empty : MsgList := { nodes := .empty, count := 0 }

/-- `Get(msg)`: the returned `BOOL`, `*msg` afterwards and the list afterwards. -/
def get (q : MsgList) (msg : MailBoxFormat) : Except Fault (Bool × MailBoxFormat × MsgList) :=
  if q.nodes.tail ≠ none then do
    let tmp ← q.nodes.heap.load q.nodes.tail
    let msg := tmp.value.copyTo msg
    let count := q.count - 1
    let nodes ← dropTail q.nodes
    .ok (true, msg, { nodes, count })
  else
    .ok (false, msg, q)

/-- `Put(msg)`. -/
def put (q : MsgList) (msg : MailBoxFormat) : Except Fault MsgList := do
  let nodes ← pushNode q.nodes (.ofFormat msg)
  .ok { nodes, count := q.count + 1 }

def getCount (q : MsgList) : Int := q.count

end MsgList

/-- `SharedMemoryIO::myReadFile` on the list `pMsgList` and the caller's `*lpBuffer`. -/
def myReadFile (pMsgList : MsgList) (lpBuffer : MailBoxFormat) :
    Except Fault (Bool × MailBoxFormat × MsgList) :=
  if pMsgList.getCount > 0 then do
    let (_, lpBuffer, pMsgList) ← pMsgList.get lpBuffer
    .ok (true, lpBuffer, pMsgList)
  else
    .ok (false, lpBuffer, pMsgList)

/-! ## Sequences of calls

The calls come from two threads, but each is taken to be one step. `sent` and `delivered` record
them. -/

inductive Call where
  /-- The monitor thread puts a received message. -/
  | put (msg : MailBoxFormat)
  /-- `myReadFile` with the caller's buffer. -/
  | read (lpBuffer : MailBoxFormat)

/-- A list in use, with the messages put and the messages delivered so far, in order. -/
structure Session where
  pMsgList : MsgList
  sent : List MailBoxFormat
  delivered : List MailBoxFormat

namespace Session

def start : Session := { pMsgList := .empty, sent := [], delivered := [] }

def step (s : Session) : Call → Except Fault Session
  | .put msg => do
    let pMsgList ← s.pMsgList.put msg
    .ok { s with pMsgList, sent := s.sent ++ [msg] }
  | .read lpBuffer => do
    let (success, lpBuffer, pMsgList) ← myReadFile s.pMsgList lpBuffer
    .ok { s with pMsgList, delivered := if success then s.delivered ++ [lpBuffer] else s.delivered }

def run (s : Session) : List Call → Except Fault Session
  | [] => .ok s
  | call :: calls => do
    let s ← s.step call
    s.run calls

/-- The queue as its users see it: deliveries in order and without loss or repetition, a
read that succeeds while something is left to deliver, and a count of what is left. -/
structure Fifo (s : Session) : Prop where
  inOrder : s.delivered <+: s.sent
  reads : ∀ lpBuffer, ∃ buffer pMsgList,
    myReadFile s.pMsgList lpBuffer
      = .ok (decide (s.delivered.length < s.sent.length), buffer, pMsgList)
  count : s.pMsgList.getCount = s.sent.length - s.delivered.length

end Session

/-- The calls on which no stale message shows. `pending` are the messages put and not yet
read; `stale` is the last message read, once some read has emptied the queue. From then on
every message read must equal the one read before it. -/
def InStep (stale : Option MailBoxFormat) (pending : List MailBoxFormat) : List Call → Prop
  | [] => True
  | .put msg :: calls => InStep stale (pending ++ [msg]) calls
  | .read _ :: calls =>
    match pending with
    | [] => InStep stale [] calls
    | msg :: rest =>
      (∀ old, stale = some old → msg = old)
        ∧ InStep (if stale = none ∧ rest ≠ [] then none else some msg) rest calls

/-! ## What the list holds

`Get` takes the value of the tail and drops the tail, unless it is the only node. The first read
that empties the queue therefore leaves a node behind, and from then on the list is one node ahead
of its count. -/

/-- The nodes of the list, oldest first: the stale message if there is one, then the messages
not yet read. The count does not include the stale one. -/
def Holds (stale : Option MailBoxFormat) (pending : List MailBoxFormat) (q : MsgList) : Prop :=
  Denotes q.nodes ((stale.toList ++ pending).map MailBoxMessage.mk).reverse
    ∧ q.count = pending.length

theorem holds_empty : Holds none [] .empty := ⟨denotes_empty, rfl⟩

/-- `Put` adds a node in front and counts it. -/
theorem put_holds {stale : Option MailBoxFormat} {pending : List MailBoxFormat} {q : MsgList}
    (h : Holds stale pending q) (msg : MailBoxFormat) :
    ∃ q', q.put msg = .ok q' ∧ Holds stale (pending ++ [msg]) q' := by
  obtain ⟨nodes, hpush, hden⟩ := pushNode_denotes h.1 (.ofFormat msg)
  refine ⟨⟨nodes, q.count + 1⟩, ?_, ?_, ?_⟩
  · rw [MsgList.put, hpush]
    rfl
  · rw [← List.append_assoc, List.map_append, List.reverse_append]
    exact hden
  · rw [List.length_append, h.2]
    rfl

/-- `Get` on the oldest node `first`: it is delivered, and stays if it is the only one. -/
theorem get_denotes {q : MsgList} {first : MailBoxFormat} {others : List MailBoxFormat}
    (h : Denotes q.nodes ((first :: others).map MailBoxMessage.mk).reverse) (msg : MailBoxFormat) :
    ∃ nodes, q.get msg = .ok (true, first, ⟨nodes, q.count - 1⟩)
      ∧ Denotes nodes ((if others = [] then [first] else others).map MailBoxMessage.mk).reverse := by
  have htail : q.nodes.tail ≠ none := by
    rw [Ne, denotes_tail_eq_none_iff h]
    simp
  rw [List.map_cons, List.reverse_cons] at h
  obtain ⟨node, hload, hvalue⟩ := load_tail h
  have hget : ∀ nodes, dropTail q.nodes = .ok nodes →
      q.get msg = .ok (true, first, ⟨nodes, q.count - 1⟩) := by
    intro nodes hdrop
    rw [MsgList.get, if_pos htail, hload, ok_bind, hdrop, ok_bind, hvalue]
    rfl
  cases others with
  -- `dropTail` leaves a sole node where it is
  | nil => exact ⟨q.nodes, hget _ (dropTail_single h), h⟩
  | cons second rest =>
    rw [List.map_cons, List.reverse_cons, List.append_assoc] at h
    obtain ⟨nodes, hdrop, hden⟩ := dropTail_denotes h
    refine ⟨nodes, hget _ hdrop, ?_⟩
    rw [if_neg (List.cons_ne_nil _ _), List.map_cons, List.reverse_cons]
    exact hden

/-- Nothing to read: the read fails and changes nothing. -/
theorem read_holds_nil {stale : Option MailBoxFormat} {q : MsgList} (h : Holds stale [] q)
    (lpBuffer : MailBoxFormat) : myReadFile q lpBuffer = .ok (false, lpBuffer, q) := by
  have hcount : ¬ q.getCount > 0 := by
    rw [MsgList.getCount, h.2]
    decide
  rw [myReadFile, if_neg hcount]

/-- A read delivers the oldest message, the stale one in its place once there is one; the
message it should have delivered is stale from then on. -/
theorem read_holds_cons {stale : Option MailBoxFormat} {msg : MailBoxFormat}
    {rest : List MailBoxFormat} {q : MsgList} (h : Holds stale (msg :: rest) q)
    (lpBuffer : MailBoxFormat) :
    ∃ q', myReadFile q lpBuffer = .ok (true, stale.getD msg, q')
      ∧ Holds (if stale = none ∧ rest ≠ [] then none else some msg) rest q' := by
  have hcount : q.getCount > 0 := by
    rw [MsgList.getCount, h.2, List.length_cons]
    omega
  have hpred : q.count - 1 = rest.length := by
    rw [h.2, List.length_cons]
    omega
  cases stale with
  | none =>
    obtain ⟨nodes, hget, hden⟩ := get_denotes h.1 lpBuffer
    refine ⟨⟨nodes, q.count - 1⟩, ?_, ?_, hpred⟩
    · rw [myReadFile, if_pos hcount, hget]
      rfl
    · cases rest with
      | nil => exact hden
      | cons next rest => exact hden
  | some old =>
    -- `old` is the tail, so it is delivered and dropped, and `msg` stays in its place
    obtain ⟨nodes, hget, hden⟩ := get_denotes h.1 lpBuffer
    refine ⟨⟨nodes, q.count - 1⟩, ?_, hden, hpred⟩
    rw [myReadFile, if_pos hcount, hget]
    rfl

/-! ## The run

The deliveries are compared with those that were due: the messages put, in order, one for each
successful read. The two have the same length throughout, whatever is delivered. -/

/-- `s` after deliveries that should have been `due`. -/
structure Session.Tracks (s : Session) (stale : Option MailBoxFormat)
    (due pending : List MailBoxFormat) : Prop where
  holds : Holds stale pending s.pMsgList
  sent : s.sent = due ++ pending
  length : s.delivered.length = due.length

/-- Two deliveries agree with what was due exactly when both do. -/
theorem append_singleton_eq_iff {xs ys : List MailBoxFormat} (a b : MailBoxFormat)
    (hlength : xs.length = ys.length) : xs ++ [a] = ys ++ [b] ↔ xs = ys ∧ a = b := by
  refine ⟨fun h => ?_, fun ⟨hxs, hab⟩ => by rw [hxs, hab]⟩
  obtain ⟨hxs, hab⟩ := List.append_inj h hlength
  exact ⟨hxs, List.singleton_inj.mp hab⟩

/-- **The run.** No call faults, and the deliveries stay those that were due exactly as long
as the calls are in step. Induction on the calls. -/
theorem run_tracks (calls : List Call) :
    ∀ {s : Session} {stale : Option MailBoxFormat} {due pending : List MailBoxFormat},
      s.Tracks stale due pending →
      ∃ s' stale' due' pending', s.run calls = .ok s' ∧ s'.Tracks stale' due' pending'
        ∧ (s'.delivered = due' ↔ s.delivered = due ∧ InStep stale pending calls) := by
  induction calls with
  | nil => exact fun {s stale due pending} h =>
      ⟨s, stale, due, pending, rfl, h, (and_iff_left trivial).symm⟩
  | cons call calls ih =>
    intro s stale due pending h
    cases call with
    | put msg =>
      obtain ⟨q, hput, hq⟩ := put_holds h.holds msg
      have htracks : Session.Tracks ⟨q, s.sent ++ [msg], s.delivered⟩ stale due
          (pending ++ [msg]) := ⟨hq, by rw [h.sent, List.append_assoc], h.length⟩
      obtain ⟨s', stale', due', pending', hrun, hs', hiff⟩ := ih htracks
      refine ⟨s', stale', due', pending', ?_, hs', hiff⟩
      rw [Session.run, Session.step, hput]
      exact hrun
    | read lpBuffer =>
      -- a read fails exactly when nothing is left to deliver
      cases pending with
      | nil =>
        have hread := read_holds_nil h.holds lpBuffer
        obtain ⟨s', stale', due', pending', hrun, hs', hiff⟩ := ih h
        refine ⟨s', stale', due', pending', ?_, hs', hiff⟩
        rw [Session.run, Session.step, hread]
        exact hrun
      | cons msg rest =>
        obtain ⟨q, hread, hq⟩ := read_holds_cons h.holds lpBuffer
        have htracks : Session.Tracks ⟨q, s.sent, s.delivered ++ [stale.getD msg]⟩
            (if stale = none ∧ rest ≠ [] then none else some msg) (due ++ [msg]) rest :=
          ⟨hq, by rw [h.sent, List.append_assoc]; rfl, by
            rw [List.length_append, List.length_append, h.length]; rfl⟩
        obtain ⟨s', stale', due', pending', hrun, hs', hiff⟩ := ih htracks
        refine ⟨s', stale', due', pending', ?_, hs', ?_⟩
        · rw [Session.run, Session.step, hread]
          exact hrun
        · -- what was shown is what was due, when nothing is stale or it is the same message
          have hshown : stale.getD msg = msg ↔ ∀ old, stale = some old → msg = old := by
            cases stale with
            | none => simp
            | some old => simp [eq_comm]
          rw [hiff, append_singleton_eq_iff _ _ h.length, hshown, and_assoc]
          rfl

/-- What the counters say needs no condition. -/
theorem Session.Tracks.fifo_iff {s : Session} {stale : Option MailBoxFormat}
    {due pending : List MailBoxFormat} (h : s.Tracks stale due pending) :
    s.Fifo ↔ s.delivered = due := by
  have hlength : s.sent.length = s.delivered.length + pending.length := by
    rw [h.sent, List.length_append, h.length]
  have hdue : due <+: s.sent := ⟨pending, h.sent.symm⟩
  refine ⟨fun hfifo => ?_, fun heq => ⟨heq ▸ hdue, fun lpBuffer => ?_, ?_⟩⟩
  · -- both are prefixes of what was sent, and of one length
    exact (List.prefix_of_prefix_length_le hfifo.inOrder hdue (Nat.le_of_eq h.length)).eq_of_length
      h.length
  · cases pending with
    | nil =>
      refine ⟨lpBuffer, s.pMsgList, ?_⟩
      rw [read_holds_nil h.holds, decide_eq_false (by rw [hlength]; simp)]
    | cons msg rest =>
      obtain ⟨q, hread, -⟩ := read_holds_cons h.holds lpBuffer
      refine ⟨stale.getD msg, q, ?_⟩
      rw [hread, decide_eq_true (by rw [hlength, List.length_cons]; omega)]
  · show s.pMsgList.count = _
    rw [h.holds.2, hlength]
    omega

/-- **The received messages.** From the empty list every sequence of calls returns; the queue
is first in, first out exactly on the sequences that are in step. -/
theorem fifo_iff_inStep (calls : List Call) :
    (∃ s, Session.start.run calls = .ok s ∧ s.Fifo) ↔ InStep none [] calls := by
  have hstart : Session.start.Tracks none [] [] := ⟨holds_empty, rfl, rfl⟩
  obtain ⟨s, stale, due, pending, hrun, hs, hiff⟩ := run_tracks calls hstart
  have hfifo : s.Fifo ↔ InStep none [] calls := by
    rw [hs.fifo_iff, hiff]
    exact and_iff_right rfl
  rw [← hfifo]
  refine ⟨fun ⟨s', hrun', h⟩ => ?_, fun h => ⟨s, hrun, h⟩⟩
  rw [hrun] at hrun'
  cases hrun'
  exact h

/-- An empty message with the given id. -/
def blankMessage (id : Int32) : MailBoxFormat :=
  { FROM := 0
    pData := { buffer := Vector.replicate bufferLength 0, id, index := 0, nextSize := 0,
               messageCount := 1 } }

/-- **The sole node stays.** The message that emptied the queue is delivered again in place of
the next one. -/
theorem stale_message_delivered :
    let calls := [.put (blankMessage 1), .read default, .put (blankMessage 2), .read default]
    (∃ s, Session.start.run calls = .ok s ∧ s.sent = [blankMessage 1, blankMessage 2]
        ∧ s.delivered = [blankMessage 1, blankMessage 1])
      ∧ ¬ ∀ calls, ∃ s, Session.start.run calls = .ok s ∧ s.Fifo := by
  intro calls
  have hrun : ∃ s, Session.start.run calls = .ok s
      ∧ s.sent = [blankMessage 1, blankMessage 2]
      ∧ s.delivered = [blankMessage 1, blankMessage 1] := ⟨_, rfl, rfl, rfl⟩
  refine ⟨hrun, fun hall => ?_⟩
  obtain ⟨s, hs, hsent, hdelivered⟩ := hrun
  obtain ⟨s', hs', hfifo⟩ := hall calls
  rw [hs] at hs'
  cases hs'
  have horder := hfifo.inOrder
  rw [hsent, hdelivered] at horder
  -- the second delivery would be the second message
  have heq : blankMessage 1 = blankMessage 2 :=
    (List.cons_prefix_cons.mp (List.cons_prefix_cons.mp horder).2).1
  have hid : (1 : Int32) = 2 := congrArg (fun msg => msg.pData.id) heq
  revert hid
  decide

end OsLab.Twitter
