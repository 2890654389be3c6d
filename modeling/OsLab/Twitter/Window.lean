import OsLab.Twitter.Text

/-!
# OsLab.Twitter.Window — the window of a process

`MessageManagerWindow`: its handlers, which Windows calls one at a time and in any order, and the
calls they make of the `MailslotMrg` behind it. The timers go on ticking until they are switched
off, and both the button and the closing of the form end in `ExitButton_Click`.

* **`Window`**: the flags, the queue of tweets to send and the mailboxes to choose from.
* **`WindowSession`**: a window under a sequence of events, with the calls it has made.
* **`Window.Sound`**: the two lists of the queue belong together, and the flags tell whether the
  mailbox is still there.
* **`session_calls`** is the headline: no event sequence leads to a fault, every tweet goes out ten
  times and in order, and nothing is called once the mailbox has been deleted.
-/

namespace OsLab.Twitter

open Fallible

/-! ## The window

A handler reads the members of the window, changes them and makes calls of its `MailslotMrg`, which
are recorded in order. The queue is kept in two lists, one of mailboxes and one of texts. -/

/-- `eThreadState`. -/
inductive ThreadState where
  | starting
  | running
  | stopping
  | stoped
  deriving DecidableEq, Repr

/-- A line of `History`, without the time in front of it. -/
inductive Line where
  /-- `DisplayMessage(data)` for a notice of the window itself. -/
  | notice (data : List UInt16)
  /-- `DisplayMessage(data)` for what `ReadTweets` returned. -/
  | received (data : List UInt16)
  /-- `DisplayMessage(to, data)`. -/
  | sent (toBox : Int) (data : List UInt16)
  deriving DecidableEq, Repr

/-- What the line shows. -/
def Line.text : Line → List UInt16
  | .notice data | .received data => data
  | .sent toBox data => wideLiteral "To: " ++ wideLiteral toBox.repr ++ wideLiteral " => " ++ data

/-- Why a handler does not return. -/
inductive WindowFault where
  /-- A call through `mailbox` when it is `NULL`. -/
  | nullMailbox
  /-- `MsgToSend[0]` or `Items->RemoveAt` without such an item. -/
  | argumentOutOfRange
  deriving DecidableEq, Repr

/-- `MessageManagerWindow`. The items of `MailBoxList` are numerals; `mailbox` says that the
pointer is not `NULL`. -/
structure Window where
  runningFlag : ThreadState
  clientRunningFlag : ThreadState
  mailbox : Bool
  timers : Bool
  msgToSend : List (List UInt16)
  msgToSendto : List Int
  mailBoxList : List Nat
  history : List Line

/-- A call of the `MailslotMrg`. -/
inductive MailboxCall where
  | readTweets
  | writeTweets (toBox : Int) (Msg : List UInt8)
  | delete
  deriving DecidableEq, Repr

/-- The rounds of the loop in `RunClient`. -/
abbrev writeRounds : Nat := 10

namespace Window

/-- `DisplayMessage`. -/
def displayMessage (w : Window) (line : Line) : Window := { w with history := w.history ++ [line] }

/-- `InitializeComponent`, with the members as they are declared. -/
def initializeComponent : Window where
  runningFlag := .starting
  clientRunningFlag := .starting
  mailbox := false
  timers := false
  msgToSend := []
  msgToSendto := []
  mailBoxList := List.range maxBox
  history := []

/-- `MessageManagerWindow()`, with what `GetMailslotID` returns. -/
def construct (myMailBoxID : MailslotId) : Except WindowFault Window :=
  let w := { initializeComponent with mailbox := true }
  match myMailBoxID with
  | some id =>
    if id.val < w.mailBoxList.length then
      let w := { w with
        mailBoxList := w.mailBoxList.eraseIdx id
        runningFlag := .running
        clientRunningFlag := .running }
      let w := w.displayMessage (.notice (wideLiteral "Server Started"))
      let w := w.displayMessage (.notice (wideLiteral "Client Started"))
      .ok { w with timers := true }
    else .error .argumentOutOfRange
  | none => .ok { w with runningFlag := .stoped, clientRunningFlag := .stoped }

/-- The mailbox that `MailBoxList` shows: `SelectedItem` as a number. A `SelectedIndex` of `-1` is
no selection, and there is none past the items. -/
def selectedBox (w : Window) (selectedIndex : Int) : Option Int :=
  if selectedIndex ≥ 0 then w.mailBoxList[selectedIndex.toNat]?.map Int.ofNat else none

/-- `OnSendMsg_Click`, with the text of `MessageText`. -/
def onSendMsgClick (w : Window) (selectedIndex : Int) (data : List UInt16) : Window :=
  match w.selectedBox selectedIndex with
  | some box =>
    if box ≥ 0 then
      { w with msgToSend := w.msgToSend ++ [data], msgToSendto := w.msgToSendto ++ [box] }
    else w
  | none => w

/-- `ExitButton_Click`, which `FormClosing` calls too: the calls it makes, and the window. -/
def exitButtonClick (w : Window) : List MailboxCall × Window :=
  let w := { w with timers := false }
  let w := if w.clientRunningFlag = .running then { w with clientRunningFlag := .stopping } else w
  if w.runningFlag = .running then
    ([.delete], { w with runningFlag := .stopping, mailbox := false })
  else ([], w)

/-- `RunServer`, with what `ReadTweets` returns when it is called. -/
def runServer (page : CodePage) (w : Window) (tmp : List UInt8) :
    Except WindowFault (List MailboxCall × Window) :=
  if w.runningFlag = .running then
    if w.mailbox then
      if tmp.length > 0 then
        .ok ([.readTweets], w.displayMessage (.received (page.wideText tmp)))
      else .ok ([.readTweets], w)
    else .error .nullMailbox
  else .ok ([], w)

/-- `RunClient` up to its loop: the tweet taken from the queue, if there is one. -/
def takeTweet (page : CodePage) (w : Window) :
    Except WindowFault (Option (Int × List UInt8) × Window) :=
  if w.clientRunningFlag = .running then
    match w.msgToSendto, w.msgToSend with
    | box :: boxes, data :: datas =>
      let w := w.displayMessage (.sent box data)
      .ok (some (box, page.narrowText data), { w with msgToSend := datas, msgToSendto := boxes })
    | _ :: _, [] => .error .argumentOutOfRange
    | [], _ => .ok (none, w)
  else .ok (none, w)

/-- `RunClient`. -/
def runClient (page : CodePage) (w : Window) : Except WindowFault (List MailboxCall × Window) := do
  let (tweet, w) ← w.takeTweet page
  match tweet with
  | some (box, tmp) =>
    if w.mailbox then .ok (List.replicate writeRounds (.writeTweets box tmp), w)
    else .error .nullMailbox
  | none => .ok ([], w)

end Window

/-! ## Sequences of events

The handlers all run on the thread of the window, so an event is one handler from its beginning to
its end, and the events come in any order. -/

inductive WindowEvent where
  | clickSend (selectedIndex : Int) (data : List UInt16)
  | clickExit
  | formClosing
  /-- `timer1_Tick`, with what `ReadTweets` returns when it is called. -/
  | timer1 (tmp : List UInt8)
  | timer2

/-- A window in use, with the calls it has made so far. -/
structure WindowSession where
  window : Window
  calls : List MailboxCall

namespace WindowSession

/-- One event. -/
def step (page : CodePage) (s : WindowSession) : WindowEvent → Except WindowFault WindowSession
  | .clickSend selectedIndex data =>
    .ok { s with window := s.window.onSendMsgClick selectedIndex data }
  | .clickExit | .formClosing =>
    let (calls, window) := s.window.exitButtonClick
    .ok { window, calls := s.calls ++ calls }
  | .timer1 tmp => do
    let (calls, window) ← s.window.runServer page tmp
    .ok { window, calls := s.calls ++ calls }
  | .timer2 => do
    let (calls, window) ← s.window.runClient page
    .ok { window, calls := s.calls ++ calls }

def run (page : CodePage) (s : WindowSession) (events : List WindowEvent) :
    Except WindowFault WindowSession :=
  events.foldlM (step page) s

end WindowSession

/-! ## What holds of a window

What the handlers rely on: the two lists of the queue are of one length, the list of mailboxes has
other mailboxes only, and while the window runs there is a `MailslotMrg`. Each handler keeps this,
and none of them faults. -/

/-- The mailbox is one of the ten, and not the window's own. -/
def IsOther (myMailBoxID : MailslotId) (box : Int) : Prop :=
  ∃ i : Fin maxBox, box = Int.ofNat i ∧ myMailBoxID ≠ some i

/-- The window of a process with the given mailbox, or with none, from the constructor on. -/
structure Window.Sound (w : Window) (myMailBoxID : MailslotId) : Prop where
  queue : w.msgToSendto.length = w.msgToSend.length
  boxes : ∀ box ∈ w.msgToSendto, IsOther myMailBoxID box
  items : ∀ n ∈ w.mailBoxList, IsOther myMailBoxID (Int.ofNat n)
  mailbox : w.runningFlag = .running → w.mailbox = true ∧ myMailBoxID ≠ none
  client : w.clientRunningFlag = .running → w.runningFlag = .running

namespace Window

variable {w w' : Window} {myMailBoxID : MailslotId} {box : Int} {data : List UInt16}
  {page : CodePage}

/-- The list loses the window's own mailbox. -/
theorem mem_eraseIdx_range {i n : Nat} (h : n ∈ (List.range maxBox).eraseIdx i) :
    n < maxBox ∧ n ≠ i := by
  obtain ⟨j, hj, hjn⟩ := List.mem_eraseIdx_iff_getElem?.mp h
  obtain ⟨hlt, heq⟩ := List.getElem?_eq_some_iff.mp hjn
  rw [List.getElem_range] at heq
  rw [List.length_range] at hlt
  exact ⟨heq ▸ hlt, heq ▸ hj⟩

/-- A new window, with or without a mailbox. -/
theorem construct_sound (myMailBoxID : MailslotId) :
    ∃ w, construct myMailBoxID = .ok w ∧ w.Sound myMailBoxID ∧ w.msgToSendto = []
      ∧ ∀ data, .received data ∉ w.history := by
  cases myMailBoxID with
  | none =>
    -- without a mailbox it closes, and nothing runs
    refine ⟨_, rfl, { queue := rfl, boxes := ?_, items := ?_, mailbox := ?_, client := ?_ }, rfl,
      fun _ => List.not_mem_nil⟩
    · exact fun _ hbox => absurd hbox List.not_mem_nil
    · intro n hn
      have hlt : n < maxBox := List.mem_range.mp hn
      exact ⟨⟨n, hlt⟩, rfl, (Option.some_ne_none _).symm⟩
    · exact fun hflag => absurd hflag (by decide)
    · exact fun hflag => absurd hflag (by decide)
  | some id =>
    -- with one, that mailbox is taken off the list
    have hid : id.val < initializeComponent.mailBoxList.length := by
      show id.val < (List.range maxBox).length
      rw [List.length_range]
      exact id.isLt
    refine ⟨_, if_pos hid, { queue := rfl, boxes := ?_, items := ?_, mailbox := ?_, client := ?_ },
      rfl, fun data hdata => ?_⟩
    · exact fun _ hbox => absurd hbox List.not_mem_nil
    · intro n hn
      obtain ⟨hlt, hne⟩ := mem_eraseIdx_range hn
      refine ⟨⟨n, hlt⟩, rfl, fun heq => hne ?_⟩
      rw [Option.some.inj heq]
    · exact fun _ => ⟨rfl, Option.some_ne_none _⟩
    · exact fun _ => rfl
    · simp [displayMessage, initializeComponent] at hdata

/-- A selection is another mailbox. -/
theorem Sound.selectedBox (h : w.Sound myMailBoxID) {selectedIndex : Int}
    (hbox : w.selectedBox selectedIndex = some box) : IsOther myMailBoxID box ∧ box ≥ 0 := by
  unfold Window.selectedBox at hbox
  split at hbox
  · obtain ⟨n, hn, rfl⟩ := Option.map_eq_some_iff.mp hbox
    exact ⟨h.items n (List.mem_of_getElem? hn), Int.natCast_nonneg n⟩
  · cases hbox

/-- The calls that send a tweet. -/
def callsFor (page : CodePage) (tweet : Int × List UInt16) : List MailboxCall :=
  List.replicate writeRounds (.writeTweets tweet.1 (page.narrowText tweet.2))

/-- The queue, as the tweets waiting in it. -/
def queue (w : Window) : List (Int × List UInt16) := w.msgToSendto.zip w.msgToSend

/-- A click adds at most one tweet, to another mailbox. -/
theorem Sound.onSendMsgClick (h : w.Sound myMailBoxID) (selectedIndex : Int) (data : List UInt16) :
    (w.onSendMsgClick selectedIndex data).Sound myMailBoxID
      ∧ (w.onSendMsgClick selectedIndex data).queue
        = w.queue ++ ((w.selectedBox selectedIndex).map fun box => (box, data)).toList
      ∧ (w.onSendMsgClick selectedIndex data).runningFlag = w.runningFlag
      ∧ (w.onSendMsgClick selectedIndex data).mailBoxList = w.mailBoxList
      ∧ (w.onSendMsgClick selectedIndex data).history = w.history := by
  unfold Window.onSendMsgClick
  cases hbox : w.selectedBox selectedIndex with
  | none => exact ⟨h, (List.append_nil _).symm, rfl, rfl, rfl⟩
  | some box =>
    obtain ⟨hother, hnonneg⟩ := h.selectedBox hbox
    dsimp only
    -- both lists of the queue grow
    rw [if_pos hnonneg]
    refine ⟨{ h with queue := ?_, boxes := ?_ }, ?_, rfl, rfl, rfl⟩
    · rw [List.length_append, List.length_append, h.queue]
      rfl
    · intro b hb
      rcases List.mem_append.mp hb with hold | hnew
      · exact h.boxes b hold
      · rw [List.mem_singleton.mp hnew]
        exact hother
    · exact List.zip_append h.queue

/-- After the button the flags no longer say `RUNNING`. -/
theorem Sound.exitButtonClick (h : w.Sound myMailBoxID) :
    w.exitButtonClick.2.Sound myMailBoxID ∧ w.exitButtonClick.2.queue = w.queue
      ∧ w.exitButtonClick.2.runningFlag ≠ .running
      ∧ w.exitButtonClick.2.mailBoxList = w.mailBoxList
      ∧ w.exitButtonClick.1 = if w.runningFlag = .running then [.delete] else [] := by
  have hstopping : ThreadState.stopping ≠ .running := by decide
  unfold Window.exitButtonClick
  by_cases hserver : w.runningFlag = .running
  · by_cases hclient : w.clientRunningFlag = .running
    · simp only [hserver, hclient, if_true]
      exact ⟨{ h with mailbox := fun hflag => absurd hflag hstopping,
                      client := fun hflag => absurd hflag hstopping }, rfl, hstopping, trivial, trivial⟩
    · simp only [hserver, hclient, if_true, if_false]
      exact ⟨{ h with mailbox := fun hflag => absurd hflag hstopping,
                      client := fun hflag => absurd hflag hclient }, rfl, hstopping, trivial, trivial⟩
  · have hclient : w.clientRunningFlag ≠ .running := fun hflag => hserver (h.client hflag)
    simp only [hserver, hclient, if_false]
    exact ⟨{ h with mailbox := fun hflag => absurd hflag hserver,
                    client := fun hflag => absurd hflag hclient }, rfl, hserver, trivial, trivial⟩

/-- A line of the history is nothing to the rest. -/
theorem Sound.displayMessage (h : w.Sound myMailBoxID) (line : Line) :
    (w.displayMessage line).Sound myMailBoxID where
  queue := h.queue
  boxes := h.boxes
  items := h.items
  mailbox := h.mailbox
  client := h.client

/-- `RunServer` reads if the window is running, and shows what it has read. -/
theorem Sound.runServer (h : w.Sound myMailBoxID) (page : CodePage) (tmp : List UInt8) :
    ∃ w', w.runServer page tmp
        = .ok (if w.runningFlag = .running then [.readTweets] else [], w')
      ∧ w'.Sound myMailBoxID ∧ w'.queue = w.queue ∧ w'.runningFlag = w.runningFlag
      ∧ w'.mailBoxList = w.mailBoxList
      ∧ (w'.history = w.history ∨ tmp.length > 0
        ∧ w'.history = w.history ++ [.received (page.wideText tmp)]) := by
  unfold Window.runServer
  by_cases hserver : w.runningFlag = .running
  · obtain ⟨hmailbox, -⟩ := h.mailbox hserver
    rw [if_pos hserver, if_pos hmailbox, if_pos hserver]
    split
    · next hlength =>
      exact ⟨_, rfl, h.displayMessage _, rfl, rfl, rfl, Or.inr ⟨hlength, rfl⟩⟩
    · exact ⟨w, rfl, h, rfl, rfl, rfl, Or.inl rfl⟩
  · rw [if_neg hserver, if_neg hserver]
    exact ⟨w, rfl, h, rfl, rfl, rfl, Or.inl rfl⟩

/-- `RunClient` takes the first tweet of the queue. -/
theorem Sound.takeTweet_cons (h : w.Sound myMailBoxID) (page : CodePage)
    (hclient : w.clientRunningFlag = .running) {rest : List (Int × List UInt16)}
    (hqueue : w.queue = (box, data) :: rest) :
    ∃ w', w.takeTweet page = .ok (some (box, page.narrowText data), w')
      ∧ w'.Sound myMailBoxID ∧ w'.queue = rest ∧ w'.runningFlag = w.runningFlag
      ∧ w'.mailBoxList = w.mailBoxList ∧ w'.history = w.history ++ [.sent box data]
      ∧ IsOther myMailBoxID box := by
  -- a tweet in the queue is a mailbox in the one list and a text in the other
  obtain ⟨boxes, datas, hboxes, hdatas, rfl⟩ : ∃ boxes datas, w.msgToSendto = box :: boxes
      ∧ w.msgToSend = data :: datas ∧ rest = boxes.zip datas := by
    unfold Window.queue at hqueue
    cases hboxes : w.msgToSendto with
    | nil => simp [hboxes] at hqueue
    | cons b boxes =>
      cases hdatas : w.msgToSend with
      | nil => simp [hdatas] at hqueue
      | cons d datas =>
        rw [hboxes, hdatas, List.zip_cons_cons, List.cons.injEq, Prod.mk.injEq] at hqueue
        obtain ⟨⟨rfl, rfl⟩, rfl⟩ := hqueue
        exact ⟨boxes, datas, rfl, rfl, rfl⟩
  have hlength := h.queue
  rw [hboxes, hdatas] at hlength
  refine ⟨{ (w.displayMessage (.sent box data)) with msgToSend := datas, msgToSendto := boxes }, ?_,
    { h with queue := Nat.succ.inj hlength, boxes := fun b hb => h.boxes b ?_ }, rfl, rfl, rfl,
    rfl, h.boxes box ?_⟩
  · rw [Window.takeTweet, if_pos hclient, hboxes, hdatas]
  · rw [hboxes]
    exact List.mem_cons_of_mem _ hb
  · rw [hboxes]
    exact List.mem_cons_self

/-- There is nothing to take. -/
theorem Sound.takeTweet_none (h : w.Sound myMailBoxID) (page : CodePage)
    (hidle : w.clientRunningFlag ≠ .running ∨ w.queue = []) :
    w.takeTweet page = .ok (none, w) := by
  unfold Window.takeTweet
  rcases hidle with hclient | hempty
  · rw [if_neg hclient]
  · have hboxes : w.msgToSendto = [] := by
      rcases List.zip_eq_nil_iff.mp hempty with hnil | hnil
      · exact hnil
      · exact List.eq_nil_of_length_eq_zero (by rw [h.queue, hnil]; rfl)
    rw [hboxes]
    split <;> rfl

/-- `RunClient` sends the first tweet, or nothing. -/
theorem Sound.runClient (h : w.Sound myMailBoxID) (page : CodePage) :
    ∃ w' taken, w.runClient page = .ok (taken.flatMap (callsFor page), w')
      ∧ w'.Sound myMailBoxID ∧ w.queue = taken ++ w'.queue ∧ w'.runningFlag = w.runningFlag
      ∧ w'.mailBoxList = w.mailBoxList ∧ (taken ≠ [] → w.runningFlag = .running) := by
  by_cases hidle : w.clientRunningFlag ≠ .running ∨ w.queue = []
  · refine ⟨w, [], ?_, h, rfl, rfl, rfl, fun hne => absurd rfl hne⟩
    rw [Window.runClient, h.takeTweet_none page hidle, ok_bind]
    rfl
  · obtain ⟨hclient, hqueue⟩ := not_or.mp hidle
    have hclient := not_not.mp hclient
    obtain ⟨⟨box, data⟩, rest, hcons⟩ := List.exists_cons_of_ne_nil hqueue
    obtain ⟨w', htake, hsound, hrest, hflag, hlist, -, -⟩ := h.takeTweet_cons page hclient hcons
    have hserver := h.client hclient
    refine ⟨w', [(box, data)], ?_, hsound, ?_, hflag, hlist, fun _ => hserver⟩
    · -- the client runs only while the window does, and then there is a mailbox
      obtain ⟨hmailbox, -⟩ := hsound.mailbox (hflag.trans hserver)
      rw [Window.runClient, htake, ok_bind]
      dsimp only
      rw [if_pos hmailbox, List.flatMap_singleton]
      rfl
    · rw [hcons, hrest]
      rfl

end Window

/-! ## What a session does

A tweet is submitted by a click, waits in the queue, and is sent by `RunClient`. `Account` follows
the tweets on this way, next to what the calls say about the `MailslotMrg`. -/

/-- The tweets that the events submit to a window with the given list of mailboxes. -/
def submitted (w : Window) (events : List WindowEvent) : List (Int × List UInt16) :=
  events.flatMap fun event =>
    match event with
    | .clickSend selectedIndex data => ((w.selectedBox selectedIndex).map fun box => (box, data)).toList
    | .clickExit | .formClosing | .timer1 _ | .timer2 => []

/-- The tweets of one event, and of those after it. -/
theorem submitted_cons (w : Window) (event : WindowEvent) (events : List WindowEvent) :
    submitted w (event :: events) = submitted w [event] ++ submitted w events := by
  unfold submitted
  rw [List.flatMap_cons, List.flatMap_singleton]

/-- Only other mailboxes can be chosen. -/
theorem submitted_isOther {w : Window} {myMailBoxID : MailslotId} (h : w.Sound myMailBoxID)
    {events : List WindowEvent} {tweet : Int × List UInt16} (htweet : tweet ∈ submitted w events) :
    IsOther myMailBoxID tweet.1 := by
  obtain ⟨event, -, hevent⟩ := List.mem_flatMap.mp htweet
  cases event with
  | clickSend selectedIndex data =>
    obtain ⟨box, hbox, rfl⟩ := Option.map_eq_some_iff.mp (Option.mem_toList.mp hevent)
    exact (h.selectedBox hbox).1
  | clickExit | formClosing | timer1 _ | timer2 => cases hevent

/-- `WriteTweets(to, Msg)`. -/
def MailboxCall.written : MailboxCall → Option (Int × List UInt8)
  | .writeTweets toBox Msg => some (toBox, Msg)
  | .readTweets | .delete => none

/-- The mailbox is deleted at most once, and not used afterwards. -/
def DeletedLast (calls : List MailboxCall) : Prop :=
  .delete ∉ calls ∨ ∃ used, calls = used ++ [.delete] ∧ .delete ∉ used

namespace WindowSession

/-- The window `s.window` after the tweets `tweets` have been submitted and `sent` of them sent. -/
structure Account (page : CodePage) (myMailBoxID : MailslotId) (first : Window)
    (tweets sent : List (Int × List UInt16)) (s : WindowSession) : Prop where
  sound : s.window.Sound myMailBoxID
  list : s.window.mailBoxList = first.mailBoxList
  queue : tweets = sent ++ s.window.queue
  written : s.calls.filterMap MailboxCall.written
    = sent.flatMap fun tweet => List.replicate writeRounds (tweet.1, page.narrowText tweet.2)
  deleted : DeletedLast s.calls ∧ (s.window.runningFlag = .running → .delete ∉ s.calls)
  unused : myMailBoxID = none → s.calls = []

variable {page : CodePage} {myMailBoxID : MailslotId} {first : Window}
  {tweets sent : List (Int × List UInt16)} {s : WindowSession}

/-- Ten writes for each tweet, in the order of the tweets. -/
theorem written_callsFor (page : CodePage) (taken : List (Int × List UInt16)) :
    (taken.flatMap (Window.callsFor page)).filterMap MailboxCall.written
      = taken.flatMap fun tweet =>
          List.replicate writeRounds (tweet.1, page.narrowText tweet.2) := by
  rw [List.filterMap_flatMap]
  refine List.flatMap_congr fun tweet _ => ?_
  have hwrite : MailboxCall.written (.writeTweets tweet.1 (page.narrowText tweet.2))
      = some (tweet.1, page.narrowText tweet.2) := rfl
  rw [Window.callsFor, List.filterMap_replicate_of_some hwrite]

theorem delete_notMem_callsFor (page : CodePage) (taken : List (Int × List UInt16)) :
    MailboxCall.delete ∉ taken.flatMap (Window.callsFor page) := by
  intro hmem
  obtain ⟨tweet, -, hcall⟩ := List.mem_flatMap.mp hmem
  cases List.eq_of_mem_replicate hcall

/-- Calls of a mailbox that is there. -/
theorem Account.used (h : s.Account page myMailBoxID first tweets sent) {calls : List MailboxCall}
    (hcalls : .delete ∉ calls) (hserver : calls ≠ [] → s.window.runningFlag = .running) :
    DeletedLast (s.calls ++ calls)
      ∧ (s.window.runningFlag = .running → .delete ∉ s.calls ++ calls)
      ∧ (myMailBoxID = none → s.calls ++ calls = []) := by
  by_cases hrunning : s.window.runningFlag = .running
  · have hnone : .delete ∉ s.calls ++ calls := by
      rw [List.mem_append, not_or]
      exact ⟨h.deleted.2 hrunning, hcalls⟩
    exact ⟨Or.inl hnone, fun _ => hnone, fun hid => absurd hid (h.sound.mailbox hrunning).2⟩
  · obtain rfl : calls = [] := not_imp_comm.mp hserver hrunning
    rw [List.append_nil]
    exact ⟨h.deleted.1, fun hflag => absurd hflag hrunning, h.unused⟩

/-- A selection depends only on the list of mailboxes. -/
theorem selectedBox_congr {w : Window} (hlist : w.mailBoxList = first.mailBoxList)
    (selectedIndex : Int) : w.selectedBox selectedIndex = first.selectedBox selectedIndex := by
  rw [Window.selectedBox, Window.selectedBox, hlist]

/-- The button deletes the mailbox if the window was running; after it the window is not. -/
theorem Account.exitButtonClick (h : s.Account page myMailBoxID first tweets sent) :
    Account page myMailBoxID first tweets sent
      ⟨s.window.exitButtonClick.2, s.calls ++ s.window.exitButtonClick.1⟩ := by
  obtain ⟨hsound, hqueue, hstopped, hlist, hcalls⟩ := h.sound.exitButtonClick
  refine ⟨hsound, hlist.trans h.list, ?_, ?_, ⟨?_, fun hflag => absurd hflag hstopped⟩,
    fun hid => ?_⟩
  · rw [hqueue]
    exact h.queue
  · rw [List.filterMap_append, h.written, hcalls]
    split <;> exact List.append_nil _
  · rw [hcalls]
    split
    · next hserver => exact Or.inr ⟨s.calls, rfl, h.deleted.2 hserver⟩
    · rw [List.append_nil]
      exact h.deleted.1
  · rw [hcalls, if_neg fun hserver => (h.sound.mailbox hserver).2 hid, List.append_nil]
    exact h.unused hid

/-- **One event.** One case for each. -/
theorem Account.step (h : s.Account page myMailBoxID first tweets sent) (event : WindowEvent) :
    ∃ s' sent', s.step page event = .ok s'
      ∧ s'.Account page myMailBoxID first (tweets ++ submitted first [event]) sent' := by
  cases event with
  | clickSend selectedIndex data =>
    -- a tweet comes to the end of the queue, and nothing is called
    obtain ⟨hsound, hqueue, hflag, hlist, -⟩ := h.sound.onSendMsgClick selectedIndex data
    refine ⟨_, sent, rfl, hsound, hlist.trans h.list, ?_, h.written, ?_, h.unused⟩
    · rw [hqueue, selectedBox_congr h.list, ← List.append_assoc, ← h.queue]
      exact congrArg _ (List.append_nil _)
    · rw [hflag]
      exact h.deleted
  | clickExit | formClosing =>
    -- both close the window; no tweet moves
    refine ⟨_, sent, rfl, ?_⟩
    rw [submitted, List.flatMap_singleton, List.append_nil]
    exact h.exitButtonClick
  | timer1 tmp =>
    obtain ⟨w', hrun, hsound, hqueue, hflag, hlist, -⟩ := h.sound.runServer page tmp
    -- at most one `ReadTweets`, which writes nothing
    generalize hcalls : (if s.window.runningFlag = .running then [MailboxCall.readTweets] else [])
      = calls at hrun
    have hwritten : calls.filterMap MailboxCall.written = [] := by
      rw [← hcalls]
      split <;> rfl
    have hdelete : .delete ∉ calls := by
      rw [← hcalls]
      split <;> simp
    have hserver (hne : calls ≠ []) : s.window.runningFlag = .running := by
      by_contra hstopped
      exact hne (hcalls.symm.trans (if_neg hstopped))
    refine ⟨⟨w', s.calls ++ calls⟩, sent, ?_, ?_⟩
    · rw [WindowSession.step, hrun]
      rfl
    · rw [submitted, List.flatMap_singleton, List.append_nil]
      obtain ⟨hlast, hnone, hunused⟩ := h.used hdelete hserver
      refine ⟨hsound, hlist.trans h.list, ?_, ?_, ⟨hlast, ?_⟩, hunused⟩
      · rw [hqueue]
        exact h.queue
      · rw [List.filterMap_append, h.written, hwritten, List.append_nil]
      · rw [hflag]
        exact hnone
  | timer2 =>
    -- what is taken from the queue has been sent
    obtain ⟨w', taken, hrun, hsound, hqueue, hflag, hlist, hserver⟩ := h.sound.runClient page
    refine ⟨⟨w', s.calls ++ taken.flatMap (Window.callsFor page)⟩, sent ++ taken, ?_, ?_⟩
    · rw [WindowSession.step, hrun]
      rfl
    · rw [submitted, List.flatMap_singleton, List.append_nil]
      obtain ⟨hlast, hnone, hunused⟩ := h.used (delete_notMem_callsFor page taken) (fun hne =>
        hserver fun hnil => hne (by rw [hnil, List.flatMap_nil]))
      refine ⟨hsound, hlist.trans h.list, ?_, ?_, ⟨hlast, ?_⟩, hunused⟩
      · rw [h.queue, hqueue, List.append_assoc]
      · rw [List.filterMap_append, h.written, written_callsFor, List.flatMap_append]
      · rw [hflag]
        exact hnone

/-- **The run.** Induction on the events. -/
theorem Account.run (events : List WindowEvent) :
    ∀ {s : WindowSession} {tweets sent : List (Int × List UInt16)},
      s.Account page myMailBoxID first tweets sent →
      ∃ s' sent', s.run page events = .ok s'
        ∧ s'.Account page myMailBoxID first (tweets ++ submitted first events) sent' := by
  induction events with
  | nil =>
    intro s tweets sent h
    refine ⟨s, sent, rfl, ?_⟩
    rw [submitted, List.flatMap_nil, List.append_nil]
    exact h
  | cons event events ih =>
    intro s tweets sent h
    -- the first event, then the rest
    obtain ⟨s₁, sent₁, hstep, h₁⟩ := h.step event
    obtain ⟨s', sent', hrun, h'⟩ := ih h₁
    refine ⟨s', sent', ?_, ?_⟩
    · rw [WindowSession.run, List.foldlM_cons, hstep]
      exact hrun
    · rw [submitted_cons, ← List.append_assoc]
      exact h'

end WindowSession

open WindowSession

/-- **The window and its mailbox.** Whatever the events and their order, no handler faults. The
writes are ten for each tweet sent, to a mailbox that is not the window's own; the tweets sent are
the first ones submitted and the others are in the queue. The mailbox is deleted at most once and
not used afterwards, and without a mailbox of its own the window calls nothing. -/
theorem session_calls (page : CodePage) (myMailBoxID : MailslotId) (events : List WindowEvent) :
    ∃ w s n, Window.construct myMailBoxID = .ok w
      ∧ WindowSession.run page ⟨w, []⟩ events = .ok s
      ∧ s.calls.filterMap MailboxCall.written
        = ((submitted w events).take n).flatMap
          (fun tweet => List.replicate 10 (tweet.1, page.narrowText tweet.2))
      ∧ s.window.queue = (submitted w events).drop n
      ∧ (∀ tweet ∈ submitted w events, IsOther myMailBoxID tweet.1)
      ∧ DeletedLast s.calls
      ∧ (myMailBoxID = none → s.calls = []) := by
  obtain ⟨w, hconstruct, hsound, hempty, -⟩ := Window.construct_sound myMailBoxID
  have hqueue : w.queue = [] := by
    rw [Window.queue, hempty, List.zip_nil_left]
  have hnone : MailboxCall.delete ∉ ([] : List MailboxCall) := List.not_mem_nil
  -- the new window: nothing submitted, nothing sent, nothing called
  have hstart : Account page myMailBoxID w [] [] ⟨w, []⟩ :=
    ⟨hsound, rfl, hqueue.symm, rfl, ⟨Or.inl hnone, fun _ => hnone⟩, fun _ => rfl⟩
  obtain ⟨s, sent, hrun, hs⟩ := hstart.run events
  have hsplit := hs.queue
  rw [List.nil_append] at hsplit
  refine ⟨w, s, sent.length, hconstruct, hrun, ?_, ?_, ?_, hs.deleted.1, hs.unused⟩
  · rw [hsplit, List.take_left]
    exact hs.written
  · rw [hsplit, List.drop_left]
  · exact fun tweet htweet => submitted_isOther hsound htweet

end OsLab.Twitter
