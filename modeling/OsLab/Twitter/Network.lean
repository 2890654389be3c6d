import OsLab.Twitter.ConnectionList
import OsLab.Twitter.Mailslot
import OsLab.Twitter.Window

/-!
# OsLab.Twitter.Network — the whole program, in any number of processes

Every process has its main thread, which runs the constructor and then the handlers of the
window, and the thread that watches its mailbox; the ten mailboxes are in shared memory. The steps
of the threads come in any order. A handle to a mailbox is the number of the mailbox, and so is the
address of its view: a process has at most one handle to each.

What is one step here is more than one instruction of the program. A message is copied into a
mailbox, or out of it, in one step. So are the two operations on `pMsgList`, which both threads of a
process use without a lock: `Put` by the thread, and the `Get` that `ReadTweets` makes from
`timer1_Tick`. A process ends in one step, without its destructors. The results of this module and of
those that build on it are about the interleavings of such steps.

* **`Peer`**: one process, with the objects it has.
* **`Network`**: all of them, the mailboxes, and what has been handed over to be sent.
* **`Network.step`**: one step, which fails where the program would. What the two threads do to each
  other while the destructors run is in `Twitter.Shutdown`, where a step can fault.
-/

namespace OsLab.Twitter

open Fallible
open DoublyLinked (Fault)

/-! ## One process

A process is what `Mailslot` and `Window` have of it, put together: its list of messages, the buffer
its thread reads into, its connections, and its window once the constructor is done. -/

namespace MailBoxMessage

/-- `IsValidData(max)` for `MAXBOX`, with the sender as an index. -/
def validSender (this : MailBoxMessage) : Option (Fin maxBox) :=
  if h : 0 ≤ this.data.FROM.toInt ∧ this.data.FROM.toInt.toNat < maxBox then
    some ⟨this.data.FROM.toInt.toNat, h.2⟩
  else none

end MailBoxMessage

/-- What the main thread executes next. -/
inductive MainPc where
  | constructing                        -- the loop of `MailslotMrg()`, as `StartPc` says
  | emptyFirst (i : Fin maxBox)         -- `EmptyMailbox(serverBuf)` and what follows it
  | broadcast (index : Nat)             -- the loop of `SendBroadcastMsg`
  | messageLoop                         -- between two handlers
  | sending (box : Int) (tmp : List UInt8) (rounds : Nat)  -- the loop of `RunClient`
  deriving DecidableEq, Repr

/-- A process, apart from its handles. `inbox` is `pMsgList` with what has been put into it and
what its reads have delivered; the thread is there from `checkFrom` on. -/
structure Peer where
  main : MainPc
  thread : MonitorPc
  msgId : Int32
  pLocalReadBuffer : MailBoxMessage
  pLocalWriteBuffer : MailBoxMessage
  pTempReadBuffer : MailBoxMessage
  pConnectionList : ConnectionList
  inbox : Session
  window : Window

/-- When the process starts; `msgId` is what `rand()` returns. -/
def Peer.new (msgId : Int32) : Peer where
  main := .constructing
  thread := .createMapping
  msgId := msgId
  pLocalReadBuffer := .allocateMsg
  pLocalWriteBuffer := .allocateMsg
  pTempReadBuffer := .allocateMsg
  pConnectionList := .empty
  inbox := .start
  window := .initializeComponent

/-! ## All of them

A step is one statement of one process where two processes can meet in a mailbox, and a whole
handler where only the process itself is concerned. What has been handed over and what has been
written is recorded. -/

/-- A text handed over to be sent, by `OnSendMsg_Click` or by the constructor. -/
structure Tweet (ι : Type) where
  sender : ι
  fromBox : Fin maxBox
  toBox : Int
  text : List UInt8

/-- What a `WriteTweets` that finds the buffer has written: whose call it was, with `thisMailslot`,
`Msg` and the message formatted. -/
structure Written (ι : Type) where
  sender : ι
  fromBox : MailslotId
  Msg : List UInt8
  data : MailBoxFormat

/-- The processes, the mailboxes, the tweets handed over so far, and for each mailbox what has been
written since its mapping was created. -/
structure Network (ι : Type) where
  processes : Processes ι
  peer : ι → Peer
  cell : Fin maxBox → MailBoxFormat
  tweets : List (Tweet ι)
  written : Fin maxBox → List (Written ι)

/-- Why a step does not return. -/
inductive NetworkFault where
  | list (fault : Fault)
  | text (fault : TextFault)
  | window (fault : WindowFault)
  /-- `hMailBox[to]` past the array. -/
  | outOfRange
  /-- A write through an address where nothing is mapped. -/
  | unmapped

inductive NetworkEvent (ι : Type) where
  /-- A process starts; `msgId` is what its `rand()` returns. -/
  | start (who : ι) (msgId : Int32)
  /-- The next statement of the constructor; `creates` tells whether `CreateFileMapping` succeeds
  and `maps` whether `MapViewOfFile` does. -/
  | construct (who : ι) (creates maps : Bool)
  /-- The next statement of the thread. -/
  | thread (who : ι)
  | clickSend (who : ι) (selectedIndex : Int) (data : List UInt16)
  /-- `timer1_Tick`, its `ReadTweets` and the `Get` in it included; `maps` tells whether the view of a
  new connection can be mapped. -/
  | timer1 (who : ι) (maps : Bool)
  /-- `timer2_Tick`, up to the loop of `RunClient`. -/
  | timer2 (who : ι)
  /-- A round of that loop. -/
  | write (who : ι)
  /-- The process ends, as when it is killed: none of its destructors runs. -/
  | exit (who : ι)

/-- A result of another part of the program, with its fault as one of the network. -/
def orFault {φ α : Type} (fault : φ → NetworkFault) : Except φ α → Except NetworkFault α
  | .ok a => .ok a
  | .error e => .error (fault e)

/-- What `SendBroadcastMsg` sends. -/
def greeting : List UInt8 := literal "Hello UB!"

namespace Network

variable {ι : Type}

def initial : Network ι where
  processes := .initial
  peer := fun _ => .new 0
  cell := fun _ => Mailbox.zeroCell
  tweets := []
  written := fun _ => []

variable [DecidableEq ι]

def setPeer (s : Network ι) (who : ι) (p : Peer) : Network ι :=
  { s with peer := Function.update s.peer who p }

/-- `EmptyMailbox`, on mailbox `i`. -/
def emptyMailbox (s : Network ι) (i : Fin maxBox) : Network ι :=
  { s with cell := Function.update s.cell i { s.cell i with FROM := noData } }

/-- The rest of `myCreateFile` and `myCreateMailslot` when the mapping is there: `GetBuffer` and
`pConnectionList->Add`. -/
def addConnection (p : Peer) (i : Fin maxBox) (maps : Bool) : Except NetworkFault Peer :=
  if maps then do
    let pConnectionList ← orFault .list (p.pConnectionList.add i (some i))
    .ok { p with pConnectionList }
  else .ok p

/-- `WriteTweets(to, Msg)`. -/
def writeTweets (page : CodePage) (s : Network ι) (who : ι) (toBox : Int) (Msg : List UInt8) :
    Except NetworkFault (Network ι) :=
  let proc := s.processes.proc who
  let p := s.peer who
  let lpszMessage :=
    p.pLocalWriteBuffer.formatMsgOut page.wideText proc.thisMailslot.toInt32 Msg p.msgId
  let s' := s.setPeer who { p with pLocalWriteBuffer := lpszMessage, msgId := p.msgId + 1 }
  if h : 0 ≤ toBox ∧ toBox.toNat < maxBox then
    if proc.hMailBox ⟨toBox.toNat, h.2⟩ then do
      let pBuf ← orFault .list (p.pConnectionList.peekBuffer (maxBox + 1) toBox.toNat)
      match pBuf with
      | some address =>
        if ha : address < maxBox then
          let entry :=
            { sender := who, fromBox := proc.thisMailslot, Msg, data := lpszMessage.data }
          .ok { s' with
            cell := Function.update s.cell ⟨address, ha⟩ lpszMessage.data
            written := Function.update s.written ⟨address, ha⟩
              (s.written ⟨address, ha⟩ ++ [entry]) }
        else .error .unmapped
      | none => .ok s'
    else .ok s'
  else .error .outOfRange

/-- `ReadTweets()`: the string it returns, and the state. -/
def readTweets (page : CodePage) (s : Network ι) (who : ι) (maps : Bool) :
    Except NetworkFault (List UInt8 × Network ι) :=
  let p := s.peer who
  -- `myGetMailslotInfo` compares a pointer with 0 and returns `TRUE`
  if p.inbox.pMsgList.getCount > 0 then do
    let (fResult, lpBuffer, pMsgList) ←
      orFault .list (myReadFile p.inbox.pMsgList p.pLocalReadBuffer.data)
    if fResult then do
      let p := { p with
        pLocalReadBuffer := { data := lpBuffer }
        inbox := { p.inbox with pMsgList, delivered := p.inbox.delivered ++ [lpBuffer] } }
      let data ← orFault .text (p.pLocalReadBuffer.formatMsgIn page)
      match p.pLocalReadBuffer.validSender with
      | some sender =>
        if (s.processes.proc who).hMailBox sender = false ∧ s.processes.NameExists sender then do
          let p ← addConnection p sender maps
          .ok (data, { s.setPeer who p with processes := s.processes.readTweets who sender })
        else .ok (data, s.setPeer who p)
      | none => .ok (data, s.setPeer who p)
    else .ok ([], s)
  else .ok ([], s)

/-- The constructor of the window, once `new MailslotMrg()` has returned. -/
def openWindow (s : Network ι) (who : ι) : Except NetworkFault (Network ι) := do
  let window ← orFault .window (Window.construct (s.processes.proc who).thisMailslot)
  .ok (s.setPeer who { s.peer who with window, main := .messageLoop })

/-- The next statement of the constructor. -/
def construct (page : CodePage) (s : Network ι) (who : ι) (creates maps : Bool) :
    Except NetworkFault (Network ι) :=
  let p := s.peer who
  match p.main with
  | .constructing =>
    match (s.processes.proc who).pc with
    | .openBox i =>
      if h : i < maxBox then
        if s.processes.NameExists ⟨i, h⟩ then do
          let p ← addConnection p ⟨i, h⟩ maps
          .ok { s.setPeer who p with processes := s.processes.construct who creates }
        else .ok { s with processes := s.processes.construct who creates }
      else
        openWindow { s with processes := s.processes.construct who creates } who
    | .createBox i =>
      if creates then
        let s := { s with
          processes := s.processes.construct who creates
          -- a new mapping is zero
          cell := if s.processes.NameExists i then s.cell
            else Function.update s.cell i Mailbox.zeroCell
          written := if s.processes.NameExists i then s.written
            else Function.update s.written i [] }
        if maps then .ok (s.setPeer who { p with main := .emptyFirst i, thread := .emptyFirst })
        else .ok (s.setPeer who { p with main := .broadcast 0 })
      else .ok { s with processes := s.processes.construct who creates }
    | .running => .ok s
  | .emptyFirst i => do
    let s := s.emptyMailbox i
    let p ← addConnection p i true
    .ok (s.setPeer who { p with main := .broadcast 0, thread := .checkFrom })
  | .broadcast index =>
    if h : index < maxBox then
      if (s.processes.proc who).thisMailslot ≠ some ⟨index, h⟩
          ∧ (s.processes.proc who).hMailBox ⟨index, h⟩ then
        match (s.processes.proc who).thisMailslot with
        | some fromBox => do
          let tweet := { sender := who, fromBox, toBox := index, text := greeting }
          let s := { s with tweets := s.tweets ++ [tweet] }
          let s := s.setPeer who { p with main := .broadcast (index + 1) }
          s.writeTweets page who index greeting
        | none => .ok s
      else .ok (s.setPeer who { p with main := .broadcast (index + 1) })
    else openWindow s who
  | .messageLoop | .sending _ _ _ => .ok s

/-- The next statement of the thread: `MonitorIncomingData(serverBuf)`. The copy of a message and `Put`
are one step each. -/
def stepThread (s : Network ι) (who : ι) : Except NetworkFault (Network ι) :=
  let p := s.peer who
  match (s.processes.proc who).thisMailslot with
  | some i =>
    match p.thread with
    | .checkFrom =>
      .ok (s.setPeer who { p with
        thread := if (s.cell i).FROM ≠ noData then .copyCell else .checkFrom })
    | .copyCell =>
      .ok (s.setPeer who { p with pTempReadBuffer := { data := s.cell i }, thread := .put })
    | .put =>
      if p.pTempReadBuffer.isValidData then do
        let inbox ← orFault .list (p.inbox.step (.put p.pTempReadBuffer.data))
        .ok (s.setPeer who { p with inbox, thread := .emptyMailbox })
      else .ok (s.setPeer who { p with thread := .checkFrom })
    | .emptyMailbox => .ok ((s.emptyMailbox i).setPeer who { p with thread := .checkFrom })
    | .createMapping | .emptyFirst => .ok s
  | none => .ok s

/-- The tweet that a click hands over, if a mailbox is selected. -/
def clicked (page : CodePage) (s : Network ι) (who : ι) (selectedIndex : Int) (data : List UInt16) :
    List (Tweet ι) :=
  match (s.processes.proc who).thisMailslot, (s.peer who).window.selectedBox selectedIndex with
  | some fromBox, some toBox => [{ sender := who, fromBox, toBox, text := page.narrowText data }]
  | _, _ => []

/-- `OnSendMsg_Click`. -/
def clickSend (page : CodePage) (s : Network ι) (who : ι) (selectedIndex : Int)
    (data : List UInt16) : Network ι :=
  let p := s.peer who
  { s.setPeer who { p with window := p.window.onSendMsgClick selectedIndex data } with
    tweets := s.tweets ++ s.clicked page who selectedIndex data }

/-- The call of `ReadTweets` in `RunServer`, made if the flag says so. -/
def serverRead (page : CodePage) (s : Network ι) (who : ι) (maps : Bool) :
    Except NetworkFault (List UInt8 × Network ι) :=
  if (s.peer who).window.runningFlag = .running then s.readTweets page who maps else .ok ([], s)

/-- `timer1_Tick`: `RunServer`. -/
def timer1 (page : CodePage) (s : Network ι) (who : ι) (maps : Bool) :
    Except NetworkFault (Network ι) := do
  let (tmp, s) ← s.serverRead page who maps
  let (_, window) ← orFault .window ((s.peer who).window.runServer page tmp)
  .ok (s.setPeer who { s.peer who with window })

/-- `timer2_Tick`: `RunClient` up to its loop. -/
def timer2 (page : CodePage) (s : Network ι) (who : ι) : Except NetworkFault (Network ι) := do
  let p := s.peer who
  let (tweet, window) ← orFault .window (p.window.takeTweet page)
  match tweet with
  | some (box, tmp) =>
    .ok (s.setPeer who { p with window, main := .sending box tmp writeRounds })
  | none => .ok (s.setPeer who { p with window })

/-- A round of the loop of `RunClient`, or the return from it. -/
def writeRound (page : CodePage) (s : Network ι) (who : ι) : Except NetworkFault (Network ι) :=
  let p := s.peer who
  match p.main with
  | .sending box tmp (rounds + 1) =>
    if p.window.mailbox then
      (s.setPeer who { p with main := .sending box tmp rounds }).writeTweets page who box tmp
    else .error (.window .nullMailbox)
  | .sending _ _ 0 => .ok (s.setPeer who { p with main := .messageLoop })
  | _ => .ok s

/-- One step. What the main thread is not about to do changes nothing; an end leaves the mailboxes and
what has been written as they are. -/
def step (page : CodePage) (s : Network ι) : NetworkEvent ι → Except NetworkFault (Network ι)
  | .start who msgId =>
    if who ∈ s.processes.live then .ok s
    else .ok { s.setPeer who (.new msgId) with processes := s.processes.step (.start who) }
  | .construct who creates maps =>
    if who ∈ s.processes.live then s.construct page who creates maps else .ok s
  | .thread who => if who ∈ s.processes.live then s.stepThread who else .ok s
  | .clickSend who selectedIndex data =>
    if who ∈ s.processes.live ∧ (s.peer who).main = .messageLoop then
      .ok (s.clickSend page who selectedIndex data)
    else .ok s
  | .timer1 who maps =>
    if who ∈ s.processes.live ∧ (s.peer who).main = .messageLoop then s.timer1 page who maps
    else .ok s
  | .timer2 who =>
    if who ∈ s.processes.live ∧ (s.peer who).main = .messageLoop then s.timer2 page who else .ok s
  | .write who => if who ∈ s.processes.live then s.writeRound page who else .ok s
  | .exit who => .ok { s with processes := s.processes.step (.exit who) }

def run (page : CodePage) (s : Network ι) (events : List (NetworkEvent ι)) :
    Except NetworkFault (Network ι) :=
  events.foldlM (step page) s

end Network

end OsLab.Twitter
