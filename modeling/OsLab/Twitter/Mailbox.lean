import Mathlib.Data.List.Sublists
import OsLab.Lib.GuardedRun
import OsLab.Twitter.MsgList

/-!
# OsLab.Twitter.Mailbox — one shared mailbox

One mailbox: the cell in shared memory, the monitor of the process that owns it, and any
number of client processes that write to it. A step is one statement of the monitor, or a
client opening the mapping, or a client's `WriteTweets`; copying a message into or out of the
cell is one step, and `EmptyMailbox` overwrites `FROM` and nothing else. Nothing keeps a
client from writing while a message is there.

* **`puts_sublist_written`**: the monitor puts a subsequence of what was written, no write
  twice.
* **`accounted_of_guarded`**: no accepted message is lost as long as clients write only when
  the cell is empty.
* **`message_overwritten`**: two writes between two polls, and the first message is gone.
-/

namespace OsLab.Twitter

/-! ## Messages out

`FormatMsgOut` fills the write buffer of a process: the text as wide characters, cut to what the
buffer holds, and with a terminator behind it. The conversion of the code page is not in the
repository and is a parameter. -/

/-- `MAXBOX`. -/
abbrev maxBox : Nat := 10

/-- The value of `thisMailslot`: `none` is `INVALID_MAILSLOT`, that is `-1`. -/
abbrev MailslotId := Option (Fin maxBox)

def MailslotId.toInt32 : MailslotId → Int32
  | none => -1
  | some i => Int32.ofNat i

/-- `MultiByteToWideChar(CP_ACP, 0, source, -1, dest, size)`, where `toWide` is the conversion
of the code page: the characters up to the terminator and the terminator, as far as they fit. -/
def multiByteToWideChar {n : Nat} (toWide : List UInt8 → List UInt16) (source : List UInt8)
    (dest : Vector UInt16 n) (size : Nat) : Vector UInt16 n :=
  let wide := toWide (source.takeWhile (· ≠ 0)) ++ [0]
  Vector.ofFn fun i => if i.val < size then wide.getD i dest[i] else dest[i]

namespace MailBoxMessage

/-- `IsValidData()`. -/
def isValidData (this : MailBoxMessage) : Bool := decide (0 ≤ this.data.FROM)

/-- `FormatMsgOut(from, Msg, msg_id)`: the object afterwards, whose `data` is what the function
returns. `Msg` is a string of fewer than `2 ^ 31` bytes. -/
def formatMsgOut (toWide : List UInt8 → List UInt16) (this : MailBoxMessage) (fromId : Int32)
    (Msg : List UInt8) (msgId : Int32) : MailBoxMessage :=
  let msgSize := if Msg.length ≥ bufferLength then bufferLength - 1 else Msg.length
  { data :=
      { FROM := fromId
        pData :=
          { id := msgId
            index := 0
            nextSize := Int32.ofNat msgSize
            messageCount := 1
            buffer := (multiByteToWideChar toWide Msg this.data.pData.buffer msgSize).setIfInBounds
              msgSize 0 } } }

@[simp] theorem formatMsgOut_FROM (toWide : List UInt8 → List UInt16) (this : MailBoxMessage)
    (fromId : Int32) (Msg : List UInt8) (msgId : Int32) :
    (this.formatMsgOut toWide fromId Msg msgId).data.FROM = fromId := rfl

end MailBoxMessage

/-! ## The mailbox and its users

The owner's statements come from `myCreateMailslot` and `MonitorIncomingData`. The clients' come
from `myCreateFile` and `WriteTweets`. `written` and `puts` are not variables of the program; they
record what went in and what came out. -/

/-- `NO_DATA`. -/
def noData : Int32 := 999

/-- The statement the owner of the mailbox executes next: in `myCreateMailslot`, then in
`MonitorIncomingData`, which its thread calls over and over. -/
inductive MonitorPc where
  | createMapping  -- `serverHandle = CreateFileMapping(…)`
  | emptyFirst     -- `EmptyMailbox(serverBuf)`, after which the thread is created
  | checkFrom      -- `Read(&data, …, sizeof(int)); if (data != NO_DATA)`
  | copyCell       -- `Read(pTempReadBuffer->data, …, MaxMessageSize)`
  | put            -- `if (IsValidData()) pMsgList->Put(pTempReadBuffer->data)`
  | emptyMailbox   -- `EmptyMailbox(local_serverBuf)`
  deriving DecidableEq, Repr

/-- A process with its connection to this mailbox. -/
structure Client where
  thisMailslot : MailslotId
  msgId : Int32
  pLocalWriteBuffer : MailBoxMessage
  connected : Bool

/-- The system. `written` lists the messages whose write returned `TRUE` and `puts` those
passed to `pMsgList->Put`, in order. -/
structure Mailbox (ι : Type*) where
  cell : MailBoxFormat
  monitor : MonitorPc
  pTempReadBuffer : MailBoxMessage
  client : ι → Client
  written : List MailBoxFormat
  puts : List MailBoxFormat

inductive Event (ι : Type*) where
  /-- The owner executes its next statement. -/
  | monitor
  /-- `myCreateFile` for this mailbox. -/
  | connect (who : ι)
  | writeTweets (who : ι) (Msg : List UInt8)

namespace Mailbox

variable {ι : Type*}

/-- A fresh mapping is zero. -/
def zeroCell : MailBoxFormat :=
  { FROM := 0
    pData := { buffer := Vector.replicate bufferLength 0, id := 0, index := 0, nextSize := 0,
               messageCount := 0 } }

/-- Before the mailbox exists, with the ids, message numbers and buffers the processes have. -/
def initial (client : ι → Client) : Mailbox ι :=
  { cell := zeroCell, monitor := .createMapping, pTempReadBuffer := .allocateMsg,
    client := fun who => { client who with connected := false }, written := [], puts := [] }

/-- `EmptyMailbox(pBuf)`: an `int` written over the front of the cell. -/
def empty (s : Mailbox ι) : Mailbox ι := { s with cell := { s.cell with FROM := noData } }

/-- One statement of the owner. -/
def stepMonitor (s : Mailbox ι) : Mailbox ι :=
  match s.monitor with
  | .createMapping => { s with monitor := .emptyFirst }
  | .emptyFirst => { s.empty with monitor := .checkFrom }
  | .checkFrom => { s with monitor := if s.cell.FROM ≠ noData then .copyCell else .checkFrom }
  | .copyCell => { s with pTempReadBuffer := { data := s.cell }, monitor := .put }
  | .put =>
    if s.pTempReadBuffer.isValidData then
      { s with puts := s.puts ++ [s.pTempReadBuffer.data], monitor := .emptyMailbox }
    else { s with monitor := .checkFrom }
  | .emptyMailbox => { s.empty with monitor := .checkFrom }

section Clients

variable [DecidableEq ι]

def setClient (s : Mailbox ι) (who : ι) (c : Client) : Mailbox ι :=
  { s with client := Function.update s.client who c }

/-- `myCreateFile`: `OpenFileMapping` fails while the name does not exist. -/
def connect (s : Mailbox ι) (who : ι) : Mailbox ι :=
  if s.monitor = .createMapping then s
  else s.setClient who { s.client who with connected := true }

/-- `myWriteFile(hFile, lpBuffer, …)`, with what it returns. -/
def myWriteFile (s : Mailbox ι) (who : ι) (lpBuffer : MailBoxFormat) : Bool × Mailbox ι :=
  if (s.client who).connected then
    (true, { s with cell := lpBuffer, written := s.written ++ [lpBuffer] })
  else (false, s)

/-- The message that `WriteTweets` formats. -/
def messageOut (toWide : List UInt8 → List UInt16) (s : Mailbox ι) (who : ι) (Msg : List UInt8) :
    MailBoxMessage :=
  (s.client who).pLocalWriteBuffer.formatMsgOut toWide (s.client who).thisMailslot.toInt32 Msg
    (s.client who).msgId

/-- `WriteTweets(to, Msg)` to this mailbox, with what it returns. -/
def writeTweets (toWide : List UInt8 → List UInt16) (s : Mailbox ι) (who : ι) (Msg : List UInt8) :
    Bool × Mailbox ι :=
  let message := s.messageOut toWide who Msg
  let (fResult, s) := s.myWriteFile who message.data
  (fResult, s.setClient who { s.client who with
    pLocalWriteBuffer := message, msgId := (s.client who).msgId + 1 })

def step (toWide : List UInt8 → List UInt16) (s : Mailbox ι) : Event ι → Mailbox ι
  | .monitor => s.stepMonitor
  | .connect who => s.connect who
  | .writeTweets who Msg => (s.writeTweets toWide who Msg).2

/-- The state after the events, in that order. -/
def run (toWide : List UInt8 → List UInt16) (s : Mailbox ι) (events : List (Event ι)) : Mailbox ι :=
  events.foldl (step toWide) s

theorem run_append_singleton (toWide : List UInt8 → List UInt16) (s : Mailbox ι)
    (events : List (Event ι)) (event : Event ι) :
    s.run toWide (events ++ [event]) = (s.run toWide events).step toWide event := by
  unfold run
  rw [List.foldl_append]
  rfl

end Clients

/-! ## What a step can do

Whatever is said about a mailbox has to be checked against three kinds of step only: a statement of
the owner, a step that leaves the cell alone, and a whole message written over what the cell shows.
-/

/-- A client that is connected writes only into an empty cell. -/
def WritesWhenEmpty (s : Mailbox ι) : Event ι → Prop
  | .writeTweets who _ => (s.client who).connected → s.cell.FROM = noData
  | _ => True

/-- A step, by what it does to the cell: the owner's statement, nothing, or a whole message
written over it. -/
inductive Moves (s : Mailbox ι) (event : Event ι) : Mailbox ι → Prop where
  | monitor : Moves s event s.stepMonitor
  | quiet (client : ι → Client) : Moves s event { s with client }
  | wrote (client : ι → Client) (msg : MailBoxFormat) (hmsg : msg.FROM ≠ noData)
      (hempty : s.WritesWhenEmpty event → s.cell.FROM = noData) :
      Moves s event { s with client, cell := msg, written := s.written ++ [msg] }

/-- A mailbox id is never taken for `NO_DATA`. -/
theorem toInt32_ne_noData (id : MailslotId) : id.toInt32 ≠ noData := by
  cases id with
  | none => decide
  | some i => revert i; decide

/-- Every event is one of the three kinds of step. -/
theorem step_moves [DecidableEq ι] (toWide : List UInt8 → List UInt16) (s : Mailbox ι)
    (event : Event ι) :
    s.Moves event (s.step toWide event) := by
  cases event with
  | monitor => exact .monitor
  | connect who =>
    show Moves _ _ (s.connect who)
    unfold connect
    split
    · exact .quiet s.client
    · exact .quiet _
  | writeTweets who Msg =>
    show Moves _ _ (s.writeTweets toWide who Msg).2
    -- a client without a mapping writes nothing, though its buffer and its message number change
    by_cases hconnected : (s.client who).connected
    · simp only [writeTweets, myWriteFile, hconnected, if_true]
      exact .wrote _ _ (toInt32_ne_noData _) fun hempty => hempty hconnected
    · simp only [writeTweets, myWriteFile, hconnected, Bool.false_eq_true, if_false]
      exact .quiet _

/-! ## Nothing invented, nothing twice

The monitor copies the cell after it has seen that a message is there, and empties it after it has
put the copy. Between these a client may write again, so what the invariant says depends on the
statement that is next: what is in the cell, and what is in the buffer, has been written and not
been put. -/

/-- What has been written ends with the message in the cell, which has not been put. -/
def CellUnread (s : Mailbox ι) : Prop :=
  ∃ before, s.written = before ++ [s.cell] ∧ s.puts.Sublist before

/-- The message in the monitor's buffer was written, and nothing from it on has been put. -/
def BufferUnread (s : Mailbox ι) : Prop :=
  ∃ before after, s.written = before ++ s.pTempReadBuffer.data :: after ∧ s.puts.Sublist before

/-- The order of the messages put, at each statement of the monitor. -/
def InOrder (s : Mailbox ι) : Prop :=
  s.puts.Sublist s.written
    ∧ match s.monitor with
      | .checkFrom => s.cell.FROM ≠ noData → s.CellUnread
      | .copyCell => s.CellUnread
      | .put => s.CellUnread ∧ s.BufferUnread
      | _ => True

/-- One statement of the owner. At `copyCell` the message moves from the cell to the buffer, at
`put` from the buffer to what has been put. -/
theorem inOrder_stepMonitor {s : Mailbox ι} (h : s.InOrder) : s.stepMonitor.InOrder := by
  obtain ⟨hputs, hpc⟩ := h
  cases hmonitor : s.monitor with
  | createMapping =>
    simp only [stepMonitor, hmonitor]
    exact ⟨hputs, trivial⟩
  | emptyFirst | emptyMailbox =>
    -- the cell is empty now, so there is nothing to say about it
    simp only [stepMonitor, hmonitor]
    exact ⟨hputs, fun hne => absurd rfl hne⟩
  | checkFrom =>
    simp only [hmonitor] at hpc
    simp only [stepMonitor, hmonitor]
    by_cases hne : s.cell.FROM ≠ noData
    · rw [if_pos hne]
      exact ⟨hputs, hpc hne⟩
    · rw [if_neg hne]
      exact ⟨hputs, fun h => absurd h hne⟩
  | copyCell =>
    simp only [hmonitor] at hpc
    simp only [stepMonitor, hmonitor]
    obtain ⟨before, hwritten, hsub⟩ := hpc
    exact ⟨hputs, ⟨before, hwritten, hsub⟩, before, [], hwritten, hsub⟩
  | put =>
    simp only [hmonitor] at hpc
    obtain ⟨hcell, before, after, hwritten, hsub⟩ := hpc
    simp only [stepMonitor, hmonitor]
    split
    · -- it stands behind all that has been put
      refine ⟨?_, trivial⟩
      show (s.puts ++ [s.pTempReadBuffer.data]).Sublist s.written
      rw [hwritten]
      exact hsub.append (List.singleton_sublist.mpr List.mem_cons_self)
    · -- an invalid message is left in the cell
      exact ⟨hputs, fun _ => hcell⟩

/-- One step. A write can come at any statement of the owner. -/
theorem inOrder_moves {s s' : Mailbox ι} {event : Event ι} (hmove : s.Moves event s')
    (h : s.InOrder) : s'.InOrder := by
  cases hmove with
  | monitor => exact inOrder_stepMonitor h
  | quiet client => exact h
  | wrote client msg hmsg hempty =>
    obtain ⟨hputs, hpc⟩ := h
    have hputs' : s.puts.Sublist (s.written ++ [msg]) :=
      hputs.trans (List.sublist_append_left s.written [msg])
    -- whatever was there, the cell now shows the last message written
    have hcell :
        ({ s with client, cell := msg, written := s.written ++ [msg] } : Mailbox ι).CellUnread :=
      ⟨s.written, rfl, hputs⟩
    refine ⟨hputs', ?_⟩
    cases hmonitor : s.monitor with
    | createMapping | emptyFirst | emptyMailbox => trivial
    | checkFrom => exact fun _ => hcell
    | copyCell => exact hcell
    | put =>
      simp only [hmonitor] at hpc
      -- the message in the buffer stays where it was written
      obtain ⟨-, before, after, hwritten, hsub⟩ := hpc
      refine ⟨hcell, before, after ++ [msg], ?_, hsub⟩
      show s.written ++ [msg] = _
      rw [hwritten, List.append_assoc, List.cons_append]

/-- **Nothing invented, nothing twice.** For every interleaving of the monitor with any number
of clients, the messages put are a subsequence of those written, in the order written; each
write is put at most once. -/
theorem puts_sublist_written [DecidableEq ι] (toWide : List UInt8 → List UInt16)
    (client : ι → Client) (events : List (Event ι)) :
    ((initial client).run toWide events).puts.Sublist
      ((initial client).run toWide events).written := by
  have hinit : (initial client).InOrder := ⟨List.nil_sublist [], trivial⟩
  have hrun : ((initial client).run toWide events).InOrder :=
    GuardedRun.keeps (P := InOrder) (fun s event => inOrder_moves (step_moves toWide s event))
      events hinit
  exact hrun.1

/-! ## Nothing lost

When clients write into an empty cell only, the cell changes under the monitor's eyes at `checkFrom`
and nowhere else. The invariant then gives what has been written exactly: what has been put, and the
message on its way. -/

/-- Every accepted message is still in the cell or has been put, each write counted. -/
def Accounted (s : Mailbox ι) : Prop :=
  ∀ msg, s.written.count msg ≤ s.puts.count msg + if s.cell = msg then 1 else 0

/-- Every write of the events finds the cell empty. -/
def Guarded [DecidableEq ι] (toWide : List UInt8 → List UInt16) (s : Mailbox ι)
    (events : List (Event ι)) : Prop :=
  GuardedRun.Guarded (step toWide) WritesWhenEmpty s events

/-- What has been written, at each statement of the monitor, when all writes were guarded. -/
def Kept (s : Mailbox ι) : Prop :=
  match s.monitor with
  | .createMapping | .emptyFirst => s.cell.FROM ≠ noData ∧ s.written = [] ∧ s.puts = []
  | .checkFrom => s.written = if s.cell.FROM = noData then s.puts else s.puts ++ [s.cell]
  | .copyCell => s.cell.FROM ≠ noData ∧ s.written = s.puts ++ [s.cell]
  | .put =>
    s.cell.FROM ≠ noData ∧ s.written = s.puts ++ [s.cell] ∧ s.pTempReadBuffer.data = s.cell
  | .emptyMailbox => s.cell.FROM ≠ noData ∧ s.written = s.puts

theorem kept_stepMonitor {s : Mailbox ι} (h : s.Kept) : s.stepMonitor.Kept := by
  unfold Kept at h
  cases hmonitor : s.monitor with
  | createMapping =>
    simp only [hmonitor] at h
    simp only [stepMonitor, hmonitor]
    exact h
  | emptyFirst =>
    simp only [hmonitor] at h
    simp only [stepMonitor, hmonitor]
    show s.written = s.puts
    rw [h.2.1, h.2.2]
  | checkFrom =>
    simp only [hmonitor] at h
    simp only [stepMonitor, hmonitor]
    by_cases hne : s.cell.FROM = noData
    · rw [if_neg (not_not_intro hne)]
      exact h
    · rw [if_pos hne]
      rw [if_neg hne] at h
      exact ⟨hne, h⟩
  | copyCell =>
    simp only [hmonitor] at h
    simp only [stepMonitor, hmonitor]
    exact ⟨h.1, h.2, rfl⟩
  | put =>
    simp only [hmonitor] at h
    simp only [stepMonitor, hmonitor]
    obtain ⟨hne, hwritten, hbuffer⟩ := h
    split
    · refine ⟨hne, ?_⟩
      show s.written = s.puts ++ [s.pTempReadBuffer.data]
      rw [hwritten, hbuffer]
    · show s.written = if s.cell.FROM = noData then s.puts else s.puts ++ [s.cell]
      rw [if_neg hne]
      exact hwritten
  | emptyMailbox =>
    simp only [hmonitor] at h
    simp only [stepMonitor, hmonitor]
    exact h.2

/-- One guarded step. A write finds the cell empty, so the owner can be at `checkFrom` only. -/
theorem kept_moves {s s' : Mailbox ι} {event : Event ι} (hmove : s.Moves event s')
    (hguard : s.WritesWhenEmpty event) (h : s.Kept) : s'.Kept := by
  cases hmove with
  | monitor => exact kept_stepMonitor h
  | quiet client => exact h
  | wrote client msg hmsg hempty =>
    have hnoData := hempty hguard
    unfold Kept at h
    cases hmonitor : s.monitor with
    | createMapping | emptyFirst | copyCell | put | emptyMailbox =>
      simp only [hmonitor] at h
      -- the cell is not empty there
      exact absurd hnoData h.1
    | checkFrom =>
      simp only [hmonitor] at h
      rw [if_pos hnoData] at h
      show s.written ++ [msg] = if msg.FROM = noData then s.puts else s.puts ++ [msg]
      rw [if_neg hmsg, h]

/-- What has been written is what has been put, or that and the cell. -/
theorem Kept.accounted {s : Mailbox ι} (h : s.Kept) : s.Accounted := by
  -- which of the two it is goes by the statement that is next
  have hcases : s.written = s.puts ∨ s.written = s.puts ++ [s.cell] := by
    unfold Kept at h
    split at h
    · exact Or.inl (h.2.1.trans h.2.2.symm)
    · exact Or.inl (h.2.1.trans h.2.2.symm)
    · split at h
      · exact Or.inl h
      · exact Or.inr h
    · exact Or.inr h.2
    · exact Or.inr h.2.1
    · exact Or.inl h.2
  intro msg
  rcases hcases with heq | heq
  · rw [heq]
    exact Nat.le_add_right _ _
  · rw [heq, List.count_append, List.count_singleton]
    simp

/-- A fresh mapping has `0` for its sender, which is not `NO_DATA`. -/
theorem kept_initial (client : ι → Client) : (initial client).Kept :=
  ⟨by show (0 : Int32) ≠ noData; decide, rfl, rfl⟩

/-- **Nothing lost.** In a run in which every accepted write finds the cell empty, every state
reached accounts for the accepted messages. -/
theorem accounted_of_guarded [DecidableEq ι] (toWide : List UInt8 → List UInt16)
    (client : ι → Client) (events : List (Event ι))
    (hguarded : (initial client).Guarded toWide events) :
    ∀ first, first <+: events → ((initial client).run toWide first).Accounted := by
  intro first hfirst
  have hkept : ((initial client).run toWide first).Kept :=
    GuardedRun.Guarded.keeps (P := Kept) (fun s event => kept_moves (step_moves toWide s event))
      (kept_initial client) hguarded hfirst
  exact hkept.accounted

/-- Each of the two processes has a mailbox. -/
theorem ownBox_lt (who : Fin 2) : who.val + 1 < maxBox :=
  Nat.lt_of_lt_of_le (Nat.succ_lt_succ who.isLt) (by decide)

/-- Two processes, the owners of the mailboxes 1 and 2. -/
def twoClients (who : Fin 2) : Client :=
  { thisMailslot := some ⟨who.val + 1, ownBox_lt who⟩, msgId := 0, pLocalWriteBuffer := .allocateMsg,
    connected := false }

/-- A code page that keeps the bytes. -/
def byteCodes (bytes : List UInt8) : List UInt16 := bytes.map (·.toUInt16)

/-- The mailbox is created and both processes connect to it. -/
def connectBoth : List (Event (Fin 2)) := [.monitor, .monitor, .connect 0, .connect 1]

/-- Process 1 writes after the message of process 0 has been put and the cell emptied. -/
theorem accounted_of_guarded_two :
    ((initial twoClients).run byteCodes (connectBoth ++ [.writeTweets 0 [0x61], .monitor, .monitor,
      .monitor, .monitor, .writeTweets 1 [0x62]])).Accounted := by
  refine accounted_of_guarded byteCodes twoClients _ ?_ _ (List.prefix_refl _)
  exact ⟨trivial, trivial, trivial, trivial, fun _ => rfl, trivial, trivial, trivial, trivial,
    fun _ => rfl, trivial⟩

/-- **A message is overwritten.** Process 1 writes before the monitor has looked at what
process 0 wrote; both writes return `TRUE`, and the first message is nowhere. -/
theorem message_overwritten :
    ¬ ∀ events : List (Event (Fin 2)), ((initial twoClients).run byteCodes events).Accounted := by
  intro hall
  let s₁ := (initial twoClients).run byteCodes (connectBoth ++ [.writeTweets 0 [0x61]])
  let s₂ := s₁.step byteCodes (.writeTweets 1 [0x62])
  have hrun : (initial twoClients).run byteCodes
      (connectBoth ++ [.writeTweets 0 [0x61]] ++ [.writeTweets 1 [0x62]]) = s₂ :=
    run_append_singleton ..
  have hlost := hall (connectBoth ++ [.writeTweets 0 [0x61]] ++ [.writeTweets 1 [0x62]]) s₁.cell
  rw [hrun] at hlost
  have hwritten : s₂.written = [s₁.cell, s₂.cell] := rfl
  have hputs : s₂.puts = [] := rfl
  -- the senders differ, so the two messages do
  have hne : s₂.cell ≠ s₁.cell := by
    intro heq
    have hsender : (2 : Int32) = 1 := congrArg MailBoxFormat.FROM heq
    revert hsender
    decide
  rw [hwritten, hputs, if_neg hne, List.count_cons_self] at hlost
  exact absurd hlost (by simp)

end Mailbox

end OsLab.Twitter
