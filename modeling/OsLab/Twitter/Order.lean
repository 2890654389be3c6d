import OsLab.Lib.GuardedRun
import OsLab.Twitter.Flow

/-!
# OsLab.Twitter.Order — in what order windows show what others send

What is handed over in a process for one mailbox is written there in that order, at most as often as
the loop of `RunClient` goes round. Writes overwrite each other and some are never seen; but as long
as every mailbox has one owner, what its window shows are writes to this mailbox in their order, save
that `MsgList::Get` shows one of them twice.

* **`Network.flow`**: a network, as far as messages go; **`step_flow`**: each of its steps is a
  sequence of `Flow.Moves`.
* **`written_in_turn`** is what holds of the writes of every run.
* **`shown_in_order`** is the headline, for the runs in which every mapping created is new.
-/

namespace OsLab.Twitter

open Fallible GuardedRun Relation

variable {ι : Type} {page : CodePage}

/-! ## A network as far as messages go

`Flow` keeps of a network what order depends on: who is live, the mailboxes, what has been handed
over and written, and of each process the writes it still has to make, its thread and what its
window has shown. Handles, connections, handlers and the constructor are gone. `flow` is this view
of a network, and the sections that follow show that a step of the network is seen there as some
moves, or as none. -/

/-- The lines that `RunServer` has shown. -/
def receivedLines (history : List Line) : List (List UInt16) :=
  history.filterMap fun line =>
    match line with
    | .received data => some data
    | .notice _ | .sent _ _ => none

/-- The writes that are left of the loop of `RunClient`. -/
def MainPc.writes : MainPc → List (Int × List UInt8)
  | .sending box tmp rounds => List.replicate rounds (box, tmp)
  | .constructing | .emptyFirst _ | .broadcast _ | .messageLoop => []

/-- The writes that a process still has to make. -/
def Peer.writes (page : CodePage) (p : Peer) : List (Int × List UInt8) :=
  p.main.writes ++ p.window.queue.flatMap
    fun tweet => List.replicate writeRounds (tweet.1, page.narrowText tweet.2)

/-- A process without a mailbox never writes what is in its queue. -/
def Peer.view (page : CodePage) (p : Peer) (mailbox : MailslotId) : View where
  mailbox := mailbox
  thread := p.thread
  pTempReadBuffer := p.pTempReadBuffer
  sent := p.inbox.sent
  delivered := p.inbox.delivered
  received := receivedLines p.window.history
  pending := if mailbox = none then [] else p.writes page

namespace Network

def flow (page : CodePage) (s : Network ι) : Flow ι where
  live := s.processes.live
  view := fun w => (s.peer w).view page (s.processes.proc w).thisMailslot
  cell := s.cell
  tweets := s.tweets
  written := s.written

variable {s s' : Network ι} {who : ι}

/-- Handles and program counters do not matter. -/
theorem flow_processes {processes : Processes ι} (hlive : processes.live = s.processes.live)
    (hid : ∀ w, (processes.proc w).thisMailslot = (s.processes.proc w).thisMailslot) :
    flow page { s with processes } = s.flow page := by
  simp only [flow, hlive, hid]

variable [DecidableEq ι]

/-- A change to one process is seen as a change to its view. -/
theorem flow_setPeer (s : Network ι) (who : ι) (p : Peer) : (s.setPeer who p).flow page
    = (s.flow page).setView who (p.view page (s.processes.proc who).thisMailslot) := by
  have hview : ((s.setPeer who p).flow page).view
      = Function.update (s.flow page).view who (p.view page (s.processes.proc who).thisMailslot) := by
    funext w
    show ((s.setPeer who p).peer w).view page _ = _
    by_cases hw : w = who
    · subst hw
      rw [setPeer_self, Function.update_self]
      rfl
    · rw [setPeer_of_ne p hw, Function.update_of_ne hw]
      rfl
  rw [Flow.setView, ← hview]
  rfl

/-- A change to a process that has nothing to do with messages. -/
theorem flow_setPeer_same {p : Peer} (hp : p.view page (s.processes.proc who).thisMailslot
    = (s.peer who).view page (s.processes.proc who).thisMailslot) :
    (s.setPeer who p).flow page = s.flow page := by
  rw [flow_setPeer, hp]
  exact (s.flow page).setView_view who

/-- A change to a window that keeps its queue. -/
theorem flow_setWindow {window : Window} (hqueue : window.queue = (s.peer who).window.queue) :
    (s.setPeer who { s.peer who with window }).flow page = (s.flow page).setView who
      { (s.flow page).view who with received := receivedLines window.history } := by
  have hwrites : Peer.writes page { s.peer who with window } = (s.peer who).writes page := by
    simp only [Peer.writes, hqueue]
  rw [flow_setPeer, Peer.view, hwrites]
  rfl

/-- Only a line that says what was received counts. -/
theorem receivedLines_append (history : List Line) (line : Line) :
    receivedLines (history ++ [line]) = receivedLines history ++ receivedLines [line] :=
  List.filterMap_append

/-! ### Sending

What a process still has to write is the tweet it is sending, as often as the loop of `RunClient`
has rounds left, and then each tweet of its queue ten times. A round takes the first of these off
and writes it, if the mailbox has a buffer. -/

section Step

variable {fresh : Prop}

/-- A result that has come through is one that was delivered. -/
theorem orFault_eq_ok {φ α : Type} {fault : φ → NetworkFault} {x : Except φ α} {a : α}
    (h : orFault fault x = .ok a) : x = .ok a := by
  cases x with
  | ok b =>
    cases h
    rfl
  | error e => cases h

/-- A write that is due is made, or finds no buffer. -/
theorem flow_writeTweets {opened : Fin maxBox → Prop} {i : Fin maxBox} {Msg : List UInt8}
    (hconnections : Connects (s.peer who).pConnectionList opened)
    (hstep : s.writeTweets page who (Int.ofNat i) Msg = .ok s') :
    Flow.Moves page fresh ((s.flow page).setView who { (s.flow page).view who with
      pending := (Int.ofNat i, Msg) :: ((s.flow page).view who).pending }) (s'.flow page) := by
  generalize hf : (s.flow page).setView who { (s.flow page).view who with
    pending := (Int.ofNat i, Msg) :: ((s.flow page).view who).pending } = f
  have hview : f.view who = { (s.flow page).view who with
      pending := (Int.ofNat i, Msg) :: ((s.flow page).view who).pending } := by
    rw [← hf, Flow.setView_self]
  have hpending : (f.view who).pending = (Int.ofNat i, Msg) :: ((s.flow page).view who).pending := by
    rw [hview]
  have hrest : f.setView who { f.view who with pending := ((s.flow page).view who).pending }
      = s.flow page := by
    rw [hview, ← hf, Flow.setView_setView]
    exact (s.flow page).setView_view who
  generalize hmessage : (s.peer who).pLocalWriteBuffer.formatMsgOut page.wideText
    (s.processes.proc who).thisMailslot.toInt32 Msg (s.peer who).msgId = message at hstep
  have hs₁ : (s.setPeer who { s.peer who with
      pLocalWriteBuffer := message, msgId := (s.peer who).msgId + 1 }).flow page = s.flow page :=
    flow_setPeer_same rfl
  have hdropped : Flow.Moves page fresh f ((s.setPeer who { s.peer who with
      pLocalWriteBuffer := message, msgId := (s.peer who).msgId + 1 }).flow page) := by
    rw [hs₁, ← hrest]
    exact .dropped who _ _ hpending
  have hrange : 0 ≤ Int.ofNat i ∧ (Int.ofNat i).toNat < maxBox := ⟨Int.natCast_nonneg _, i.isLt⟩
  unfold Network.writeTweets at hstep
  simp only [hmessage, dif_pos hrange] at hstep
  split at hstep
  · obtain ⟨pBuf, hpeek, haddress⟩ := hconnections.peekBuffer i
    have hpeek' : (s.peer who).pConnectionList.peekBuffer (maxBox + 1) (Int.ofNat i).toNat
        = .ok pBuf := hpeek
    rw [orFault_ok _ hpeek', ok_bind] at hstep
    cases pBuf with
    | none =>
      -- the view could not be mapped when the mailbox was opened
      cases hstep
      exact hdropped
    | some address =>
      obtain rfl := haddress address rfl
      dsimp only at hstep
      rw [dif_pos i.isLt] at hstep
      cases hstep
      have hwrote := @Flow.Moves.wrote ι _ page fresh f who i Msg _
        (s.peer who).pLocalWriteBuffer (s.peer who).msgId hpending
      have hmailbox : (f.view who).mailbox = (s.processes.proc who).thisMailslot := by
        rw [hview]
        rfl
      have hcell : f.cell = s.cell := by
        rw [← hf]
        rfl
      have hwritten : f.written = s.written := by
        rw [← hf]
        rfl
      rw [hmailbox, hmessage, hcell, hwritten, hrest, ← hs₁] at hwrote
      exact hwrote
  · cases hstep
    exact hdropped

/-- A round of the loop of `RunClient`. -/
theorem Sound.flow_writeRound (h : s.Sound page) (hlive : who ∈ s.processes.live)
    (hstep : s.writeRound page who = .ok s') :
    ReflTransGen (Flow.Moves page fresh) (s.flow page) (s'.flow page) := by
  have hpeer := h who hlive
  unfold Network.writeRound at hstep
  cases hmain : (s.peer who).main with
  | constructing | emptyFirst i | broadcast index | messageLoop =>
    simp only [hmain] at hstep
    cases hstep
    exact .refl
  | sending box tmp rounds =>
    obtain ⟨hmailbox, fromBox, hid, ⟨i, rfl, -⟩, -⟩ := hpeer.sending box tmp rounds hmain
    cases rounds with
    | zero =>
      simp only [hmain] at hstep
      cases hstep
      rw [flow_setPeer_same]
      simp only [Peer.view, Peer.writes, hmain, MainPc.writes, List.replicate_zero]
    | succ rounds =>
      simp only [hmain, hmailbox, if_true] at hstep
      generalize hs₁ : s.setPeer who { s.peer who with
        main := .sending (Int.ofNat i) tmp rounds } = s₁ at hstep
      have hconnections : (s₁.peer who).pConnectionList = (s.peer who).pConnectionList := by
        rw [← hs₁, setPeer_self]
      have hmove : Flow.Moves page fresh _ (s'.flow page) :=
        flow_writeTweets (hconnections ▸ hpeer.connections) hstep
      -- with the write that is due the process is as it was
      have hbefore : (s₁.flow page).setView who { (s₁.flow page).view who with
          pending := (Int.ofNat i, tmp) :: ((s₁.flow page).view who).pending } = s.flow page := by
        rw [← hs₁, flow_setPeer, Flow.setView_self, Flow.setView_setView]
        refine Eq.trans (congrArg _ ?_) ((s.flow page).setView_view who)
        show _ = (s.peer who).view page (s.processes.proc who).thisMailslot
        simp only [Peer.view, Peer.writes, hmain, MainPc.writes, hid, List.replicate_succ,
          reduceCtorEq, if_false, List.cons_append]
      rw [hbefore] at hmove
      exact .single hmove

/-! ### The thread

The four statements of `MonitorIncomingData` are those of the monitor in `Mailbox`, so what is
proved there about one mailbox can be used for each. -/

/-- A statement of the owner of mailbox `i`. -/
theorem flow_monitored (hlive : who ∈ s.processes.live) {i : Fin maxBox}
    (hid : (s.processes.proc who).thisMailslot = some i) {p : Peer} {c : MailBoxFormat}
    {cell : Fin maxBox → MailBoxFormat} (hcell : cell = Function.update s.cell i c)
    (hmonitor : ((s.flow page).box who i).stepMonitor = { (s.flow page).box who i with
      cell := c, monitor := p.thread, pTempReadBuffer := p.pTempReadBuffer, puts := p.inbox.sent })
    (hrest : p.view page (s.processes.proc who).thisMailslot = { (s.flow page).view who with
      thread := p.thread, pTempReadBuffer := p.pTempReadBuffer, sent := p.inbox.sent }) :
    ReflTransGen (Flow.Moves page fresh) (s.flow page)
      (flow page { s.setPeer who p with cell }) := by
  -- the move of the owner of mailbox `i`, whose thread is the monitor there
  have hmove := @Flow.Moves.monitored ι _ page fresh (s.flow page) who i hlive hid
  rw [hmonitor] at hmove
  refine .single ?_
  have hflow : (s.setPeer who p).flow page
      = (s.flow page).setView who (p.view page (s.processes.proc who).thisMailslot) :=
    flow_setPeer s who p
  rw [hrest] at hflow
  -- the mailbox and the view of the process are all that differs
  subst hcell
  show Flow.Moves page fresh _ { (s.setPeer who p).flow page with cell := Function.update s.cell i c }
  rw [hflow]
  exact hmove

/-- `MonitorIncomingData`. One case for each statement. -/
theorem flow_stepThread (hlive : who ∈ s.processes.live) (hstep : s.stepThread who = .ok s') :
    ReflTransGen (Flow.Moves page fresh) (s.flow page) (s'.flow page) := by
  unfold Network.stepThread at hstep
  cases hid : (s.processes.proc who).thisMailslot with
  | none =>
    simp only [hid] at hstep
    cases hstep
    exact .refl
  | some i =>
    have hcell : s.cell = Function.update s.cell i (s.cell i) := (Function.update_eq_self _ _).symm
    have hmonitor : ((s.flow page).box who i).monitor = (s.peer who).thread := rfl
    have htemp : ((s.flow page).box who i).pTempReadBuffer = (s.peer who).pTempReadBuffer := rfl
    simp only [hid] at hstep
    cases hthread : (s.peer who).thread with
    | createMapping | emptyFirst =>
      simp only [hthread] at hstep
      cases hstep
      exact .refl
    | checkFrom =>
      simp only [hthread] at hstep
      cases hstep
      refine flow_monitored hlive hid hcell ?_ rfl
      simp only [Mailbox.stepMonitor, hmonitor, hthread]
      rfl
    | copyCell =>
      simp only [hthread] at hstep
      cases hstep
      refine flow_monitored hlive hid hcell ?_ rfl
      simp only [Mailbox.stepMonitor, hmonitor, hthread]
      rfl
    | put =>
      simp only [hthread] at hstep
      split at hstep
      · next hvalid =>
        obtain ⟨inbox, hput, hstep⟩ := of_bind_eq_ok hstep
        cases hstep
        obtain ⟨q, -, hq⟩ := of_bind_eq_ok (orFault_eq_ok hput)
        cases hq
        refine flow_monitored hlive hid hcell ?_ rfl
        simp only [Mailbox.stepMonitor, hmonitor, hthread, htemp, hvalid, if_true]
        rfl
      · next hvalid =>
        -- an invalid message is neither put nor emptied
        cases hstep
        refine flow_monitored hlive hid hcell ?_ rfl
        simp only [Mailbox.stepMonitor, hmonitor, hthread, htemp, hvalid, if_false,
          Bool.false_eq_true]
        rfl
    | emptyMailbox =>
      simp only [hthread] at hstep
      cases hstep
      refine flow_monitored hlive hid (Eq.refl (Function.update s.cell i _)) ?_ rfl
      simp only [Mailbox.stepMonitor, hmonitor, hthread]
      rfl

/-! ### Reading

`RunServer` shows a line for each message that `Get` delivers. The header is never empty, so a
message that has been read is always shown. -/

omit [DecidableEq ι] in
/-- There is always the header. -/
theorem length_formatMsgIn_pos {this : MailBoxMessage} {data : List UInt8}
    (h : this.formatMsgIn page = .ok data) : data.length > 0 := by
  obtain ⟨text, -, h⟩ := of_bind_eq_ok h
  dsimp only at h
  split at h
  · cases h
  · cases h
    have hheader : header this.data.pData.id this.data.FROM ≠ [] := by simp [header, literal]
    have hkeep : ∀ ch ∈ header this.data.pData.id this.data.FROM, decide (ch ≠ 0) = true :=
      fun ch hch => decide_eq_true fun hzero => zero_notMem_header _ _ (hzero ▸ hch)
    rw [CodePage.narrowText, List.map_append, ← CodePage.narrowText, narrow_wideHeader,
      List.append_assoc, List.takeWhile_append_of_pos hkeep, List.length_append]
    exact Nat.add_pos_left (List.length_pos_iff.mpr hheader) _

omit [DecidableEq ι] in
/-- `addConnection` changes the connections only. -/
theorem addConnection_eq {p p' : Peer} {i : Fin maxBox} {maps : Bool}
    (h : addConnection p i maps = .ok p') : ∃ l, p' = { p with pConnectionList := l } := by
  unfold addConnection at h
  split at h
  · obtain ⟨l, -, h⟩ := of_bind_eq_ok h
    cases h
    exact ⟨l, rfl⟩
  · cases h
    exact ⟨p.pConnectionList, rfl⟩

/-- Who owns which mailbox does not change with a process that keeps its own. -/
theorem setProc_thisMailslot {processes : Processes ι} {proc : Process}
    (h : proc.thisMailslot = (processes.proc who).thisMailslot) (w : ι) :
    ((processes.setProc who proc).proc w).thisMailslot = (processes.proc w).thisMailslot := by
  show (Function.update processes.proc who proc w).thisMailslot = _
  by_cases hw : w = who
  · rw [hw, Function.update_self, h]
  · rw [Function.update_of_ne hw]

/-- Opening the sender's mailbox makes nobody the owner of another one. -/
theorem readTweets_owners (processes : Processes ι) (who : ι) (sender : Fin maxBox) :
    (processes.readTweets who sender).live = processes.live ∧ ∀ w,
      ((processes.readTweets who sender).proc w).thisMailslot = (processes.proc w).thisMailslot := by
  unfold Processes.readTweets
  dsimp only
  split
  · exact ⟨rfl, fun _ => rfl⟩
  · split
    · exact ⟨rfl, setProc_thisMailslot rfl⟩
    · exact ⟨rfl, fun _ => rfl⟩

/-- `ReadTweets` returns nothing, or a message that has been delivered. -/
theorem readTweets_cases {maps : Bool} {data : List UInt8}
    (hstep : s.readTweets page who maps = .ok (data, s')) : data = [] ∧ s' = s
      ∨ ∃ msg, (MailBoxMessage.mk msg).formatMsgIn page = .ok data
        ∧ (s'.peer who).window = (s.peer who).window
        ∧ s'.flow page = (s.flow page).setView who { (s.flow page).view who with
            delivered := ((s.flow page).view who).delivered ++ [msg] } := by
  unfold Network.readTweets at hstep
  dsimp only at hstep
  split at hstep
  · obtain ⟨⟨fResult, lpBuffer, pMsgList⟩, -, hstep⟩ := of_bind_eq_ok hstep
    dsimp only at hstep
    split at hstep
    · obtain ⟨text, hformat, hstep⟩ := of_bind_eq_ok hstep
      generalize hp : ({ s.peer who with
        pLocalReadBuffer := ⟨lpBuffer⟩
        inbox := { (s.peer who).inbox with
          pMsgList, delivered := (s.peer who).inbox.delivered ++ [lpBuffer] } } : Peer) = p at hstep
      -- whether the sender's mailbox is opened makes no difference
      obtain ⟨rfl, l, processes, hlive, hid, rfl⟩ : data = text ∧ ∃ l processes,
          processes.live = s.processes.live
          ∧ (∀ w, (processes.proc w).thisMailslot = (s.processes.proc w).thisMailslot)
          ∧ s' = { s.setPeer who { p with pConnectionList := l } with processes } := by
        split at hstep
        · next sender _ =>
          split at hstep
          · obtain ⟨p', hadd, hstep⟩ := of_bind_eq_ok hstep
            obtain ⟨l, rfl⟩ := addConnection_eq hadd
            cases hstep
            obtain ⟨hlive, hid⟩ := readTweets_owners s.processes who sender
            exact ⟨rfl, l, _, hlive, hid, rfl⟩
          · cases hstep
            exact ⟨rfl, p.pConnectionList, s.processes, rfl, fun _ => rfl, rfl⟩
        · cases hstep
          exact ⟨rfl, p.pConnectionList, s.processes, rfl, fun _ => rfl, rfl⟩
      refine Or.inr ⟨lpBuffer, orFault_eq_ok hformat, ?_,
        (flow_processes (s := s.setPeer who { p with pConnectionList := l }) hlive hid).trans ?_⟩
      · show ((s.setPeer who { p with pConnectionList := l }).peer who).window = _
        rw [setPeer_self, ← hp]
      · rw [flow_setPeer, ← hp]
        rfl
    · cases hstep
      exact Or.inl ⟨rfl, rfl⟩
  · cases hstep
    exact Or.inl ⟨rfl, rfl⟩

/-- `RunServer`. -/
theorem flow_timer1 {maps : Bool} (hstep : s.timer1 page who maps = .ok s') :
    ReflTransGen (Flow.Moves page fresh) (s.flow page) (s'.flow page) := by
  obtain ⟨⟨tmp, s₁⟩, hread, hstep⟩ := of_bind_eq_ok hstep
  dsimp only at hstep
  obtain ⟨⟨calls, window⟩, hshow, hstep⟩ := of_bind_eq_ok hstep
  cases hstep
  replace hshow := orFault_eq_ok hshow
  -- nothing to show
  have hquiet (h₁ : s₁.flow page = s.flow page) (hwindow : window = (s₁.peer who).window) :
      ReflTransGen (Flow.Moves page fresh) (s.flow page)
        ((s₁.setPeer who { s₁.peer who with window }).flow page) := by
    rw [hwindow, flow_setPeer_same rfl, h₁]
  unfold serverRead at hread
  split at hread
  · next hserver =>
    rcases readTweets_cases hread with ⟨rfl, rfl⟩ | ⟨msg, hformat, hwindow, hflow⟩
    · refine hquiet rfl ?_
      simp only [Window.runServer, hserver, if_true, List.length_nil, gt_iff_lt, Nat.lt_irrefl,
        if_false] at hshow
      split at hshow
      · cases hshow
        rfl
      · cases hshow
    · -- what has been delivered is shown in the same handler
      have hlength := length_formatMsgIn_pos hformat
      simp only [Window.runServer, hwindow, hserver, if_true, hlength] at hshow
      split at hshow
      · cases hshow
        refine .single ?_
        have hqueue : ((s.peer who).window.displayMessage (.received (page.wideText tmp))).queue
            = (s₁.peer who).window.queue := by
          rw [hwindow]
          rfl
        have hhistory : receivedLines
            ((s.peer who).window.displayMessage (.received (page.wideText tmp))).history
              = ((s.flow page).view who).received ++ [page.wideText tmp] :=
          receivedLines_append _ _
        rw [flow_setWindow hqueue, hflow, Flow.setView_setView, Flow.setView_self, hhistory]
        exact .read who msg tmp hformat
      · cases hshow
  · next hserver =>
    cases hread
    refine hquiet rfl ?_
    rw [Window.runServer, if_neg hserver] at hshow
    cases hshow
    rfl

/-! ### The other handlers

To take a tweet from the queue moves it into the loop of `RunClient`, and neither changes what is
still to be written. A click hands over a tweet, and its ten writes come to stand behind all the
others. -/

/-- The tweet that `RunClient` takes from the queue is the next one to be written. -/
theorem Sound.flow_timer2 (h : s.Sound page) (hlive : who ∈ s.processes.live)
    (hmain : (s.peer who).main = .messageLoop) (hstep : s.timer2 page who = .ok s') :
    s'.flow page = s.flow page := by
  have hwindow := (h who hlive).window (Or.inl hmain)
  unfold Network.timer2 at hstep
  dsimp only at hstep
  by_cases hidle : (s.peer who).window.clientRunningFlag ≠ .running
      ∨ (s.peer who).window.queue = []
  · -- nothing is taken
    rw [orFault_ok _ (hwindow.takeTweet_none page hidle), ok_bind] at hstep
    cases hstep
    exact flow_setPeer_same rfl
  · obtain ⟨hclient, hqueue⟩ := not_or.mp hidle
    obtain ⟨⟨box, data⟩, rest, hcons⟩ := List.exists_cons_of_ne_nil hqueue
    obtain ⟨w', htake, -, hrest, -, -, hhistory, -⟩ :=
      hwindow.takeTweet_cons page (not_not.mp hclient) hcons
    rw [orFault_ok _ htake, ok_bind] at hstep
    cases hstep
    refine flow_setPeer_same ?_
    have hreceived : receivedLines w'.history = receivedLines (s.peer who).window.history := by
      rw [hhistory, receivedLines_append]
      exact List.append_nil _
    -- the first tweet of the queue has become the one that is being sent
    have hwrites : Peer.writes page { s.peer who with
        window := w', main := .sending box (page.narrowText data) writeRounds }
          = (s.peer who).writes page := by
      simp only [Peer.writes, MainPc.writes, hmain, hcons, hrest, List.flatMap_cons, List.nil_append]
    rw [Peer.view, hwrites, hreceived]
    rfl

/-- `OnSendMsg_Click`. -/
theorem Sound.flow_clickSend (h : s.Sound page) (hlive : who ∈ s.processes.live)
    (hmain : (s.peer who).main = .messageLoop) (selectedIndex : Int) (data : List UInt16) :
    ReflTransGen (Flow.Moves page fresh) (s.flow page)
      ((s.clickSend page who selectedIndex data).flow page) := by
  obtain ⟨-, hqueue, -, -, hhistory⟩ :=
    ((h who hlive).window (Or.inl hmain)).onSendMsgClick selectedIndex data
  have hflow : (s.clickSend page who selectedIndex data).flow page
      = { (s.flow page).setView who (Peer.view page { s.peer who with
            window := (s.peer who).window.onSendMsgClick selectedIndex data }
              (s.processes.proc who).thisMailslot) with
          tweets := s.tweets ++ s.clicked page who selectedIndex data } := by
    rw [← flow_setPeer]
    rfl
  -- without a mailbox of its own, or without one selected, nothing is handed over
  have hnothing (hclicked : s.clicked page who selectedIndex data = [])
      (hview : Peer.view page { s.peer who with
          window := (s.peer who).window.onSendMsgClick selectedIndex data }
            (s.processes.proc who).thisMailslot = (s.flow page).view who) :
      (s.clickSend page who selectedIndex data).flow page = s.flow page := by
    rw [hflow, hclicked, hview, List.append_nil, Flow.setView_view]
    rfl
  cases hid : (s.processes.proc who).thisMailslot with
  | none =>
    rw [hnothing]
    · simp only [clicked, hid]
    · simp only [flow, Peer.view, hid, hhistory, if_true]
  | some fromBox =>
    cases hbox : (s.peer who).window.selectedBox selectedIndex with
    | none =>
      rw [hnothing]
      · simp only [clicked, hid, hbox]
      · rw [hbox, Option.map_none, Option.toList_none, List.append_nil] at hqueue
        simp only [flow, Peer.view, Peer.writes, hid, hhistory, hqueue]
    | some toBox =>
      have hhanded := @Flow.Moves.handed ι _ page fresh (s.flow page)
        ⟨who, fromBox, toBox, page.narrowText data⟩ writeRounds (Nat.le_refl _)
      rw [hbox, Option.map_some, Option.toList_some] at hqueue
      -- ten writes of the tweet join those still to be made
      have hview : Peer.view page { s.peer who with
          window := (s.peer who).window.onSendMsgClick selectedIndex data }
            (s.processes.proc who).thisMailslot = { (s.flow page).view who with
          pending := ((s.flow page).view who).pending
            ++ List.replicate writeRounds (toBox, page.narrowText data) } := by
        simp only [flow, Peer.view, Peer.writes, hid, hhistory, hqueue, reduceCtorEq, if_false,
          List.flatMap_append, List.flatMap_singleton, List.append_assoc]
      have hclicked : s.clicked page who selectedIndex data
          = [⟨who, fromBox, toBox, page.narrowText data⟩] := by
        simp only [clicked, hid, hbox]
      rw [hflow, hview, hclicked]
      exact .single hhanded

/-! ### The constructor

Until the window opens, a process has nothing in its queue and has shown nothing; what the
constructor writes, it hands over and writes in one step. -/

/-- A window that has received nothing shows no such line. -/
theorem receivedLines_eq_nil {history : List Line} (h : ∀ data, .received data ∉ history) :
    receivedLines history = [] := by
  refine List.filterMap_eq_nil_iff.mpr fun line hline => ?_
  cases line with
  | received data => exact absurd hline (h data)
  | notice data | sent toBox data => rfl

omit [DecidableEq ι] in
/-- Before the window opens there is nothing to write. -/
theorem writes_of_unopened {p : Peer} (hunopened : ¬ p.main.Opened)
    (hinit : p.window = .initializeComponent) : p.writes page = [] := by
  have hmain : p.main.writes = [] := by
    cases hmain : p.main with
    | sending box tmp rounds => exact absurd (Or.inr ⟨box, tmp, rounds, hmain⟩) hunopened
    | constructing | emptyFirst i | broadcast index | messageLoop => rfl
  rw [Peer.writes, hmain, hinit]
  rfl

/-- The window opens. -/
theorem flow_openWindow (hunopened : ¬ (s.peer who).main.Opened)
    (hinit : (s.peer who).window = .initializeComponent) (hstep : s.openWindow who = .ok s') :
    s'.flow page = s.flow page := by
  obtain ⟨w, hconstruct, -, hempty, hhistory⟩ :=
    Window.construct_sound (s.processes.proc who).thisMailslot
  rw [Network.openWindow, orFault_ok _ hconstruct, ok_bind] at hstep
  cases hstep
  refine flow_setPeer_same ?_
  have hqueue : w.queue = [] := by rw [Window.queue, hempty, List.zip_nil_left]
  have hwrites : Peer.writes page { s.peer who with window := w, main := .messageLoop } = [] := by
    simp only [Peer.writes, MainPc.writes, hqueue, List.flatMap_nil, List.append_nil]
  rw [Peer.view, Peer.view, hwrites, writes_of_unopened hunopened hinit, hinit,
    receivedLines_eq_nil hhistory]
  rfl

/-- The constructor makes nobody an owner but by creating a mapping. -/
theorem construct_owners (processes : Processes ι) (who : ι) {creates : Bool}
    (h : ∀ i, (processes.proc who).pc = .createBox i → creates = false) :
    (processes.construct who creates).live = processes.live ∧ ∀ w,
      ((processes.construct who creates).proc w).thisMailslot = (processes.proc w).thisMailslot := by
  cases hpc : (processes.proc who).pc with
  | openBox i =>
    simp only [Processes.construct, hpc]
    split
    · split <;> exact ⟨rfl, setProc_thisMailslot rfl⟩
    · exact ⟨rfl, setProc_thisMailslot rfl⟩
  | createBox i =>
    simp only [Processes.construct, hpc, h i hpc, Bool.false_eq_true, if_false]
    exact ⟨rfl, setProc_thisMailslot rfl⟩
  | running =>
    have hsame : processes.construct who creates = processes := by
      simp only [Processes.construct, hpc]
    rw [hsame]
    exact ⟨rfl, fun _ => rfl⟩

/-- `myCreateFile` in the constructor. -/
theorem Sound.flow_openBox (h : s.Sound page) (hlive : who ∈ s.processes.live)
    (hmain : (s.peer who).main = .constructing) {i : Nat}
    (hpc : (s.processes.proc who).pc = .openBox i) {creates maps : Bool}
    (hstep : s.construct page who creates maps = .ok s') : s'.flow page = s.flow page := by
  -- `myCreateFile` opens a mailbox, it does not make one
  have hopens (j : Fin maxBox) (hj : (s.processes.proc who).pc = .createBox j) : creates = false := by
    rw [hpc] at hj
    cases hj
  have howners := construct_owners s.processes who hopens
  simp only [Network.construct, hmain, hpc] at hstep
  split at hstep
  · split at hstep
    · obtain ⟨p, hadd, hstep⟩ := of_bind_eq_ok hstep
      obtain ⟨l, rfl⟩ := addConnection_eq hadd
      cases hstep
      refine Eq.trans (flow_processes howners.1 howners.2) ?_
      exact flow_setPeer_same rfl
    · cases hstep
      exact flow_processes howners.1 howners.2
  · -- behind the last mailbox the window opens
    have hunopened : ¬ (s.peer who).main.Opened := by simp [MainPc.Opened, hmain]
    have hinit := ((h who hlive).unopened hunopened).1
    have hopen : s'.flow page = flow page { s with processes := s.processes.construct who creates } :=
      flow_openWindow (s := { s with processes := s.processes.construct who creates }) hunopened hinit
        hstep
    exact hopen.trans (flow_processes howners.1 howners.2)

/-- `myCreateMailslot` in the constructor, up to `GetBuffer`. -/
theorem Sound.flow_createBox (h : s.Sound page) (hlive : who ∈ s.processes.live)
    (hmain : (s.peer who).main = .constructing) {i : Fin maxBox}
    (hpc : (s.processes.proc who).pc = .createBox i) {creates maps : Bool}
    (hfresh : fresh → creates → ¬ s.processes.NameExists i)
    (hstep : s.construct page who creates maps = .ok s') :
    ReflTransGen (Flow.Moves page fresh) (s.flow page) (s'.flow page) := by
  have hpeer := h who hlive
  obtain ⟨hnone, hthread, -⟩ := hpeer.constructing hmain
  have hunopened : ¬ (s.peer who).main.Opened := by simp [MainPc.Opened, hmain]
  obtain ⟨hinit, -⟩ := hpeer.unopened hunopened
  -- there is neither anything to write nor anything received
  have hwrites {main : MainPc} {thread : MonitorPc} (hmain' : ¬ main.Opened) :
      Peer.writes page { s.peer who with main, thread } = [] := writes_of_unopened hmain' hinit
  have hempty : (s.peer who).inbox.sent = [] := by
    refine List.eq_nil_iff_forall_not_mem.mpr fun msg hmsg => ?_
    obtain ⟨j, hj, -⟩ := hpeer.received msg hmsg
    rw [hnone] at hj
    cases hj
  simp only [Network.construct, hmain, hpc] at hstep
  cases creates with
  | false =>
    simp only [Bool.false_eq_true, if_false] at hstep
    cases hstep
    obtain ⟨hlive', hid⟩ := construct_owners s.processes who fun _ _ => Eq.refl false
    rw [flow_processes hlive' hid]
  | true =>
    have hclaimed {main : MainPc} {thread : MonitorPc} (hmain' : ¬ main.Opened)
        (hthread' : thread = .createMapping ∨ thread = .emptyFirst) :
        Flow.Moves page fresh (s.flow page) (flow page (Network.setPeer { s with
          processes := s.processes.construct who true
          cell := if s.processes.NameExists i then s.cell
            else Function.update s.cell i Mailbox.zeroCell
          written := if s.processes.NameExists i then s.written
            else Function.update s.written i [] } who { s.peer who with main, thread })) := by
      have hmove := @Flow.Moves.claimed ι _ page fresh (s.flow page) who i thread
        (if s.processes.NameExists i then s.cell i else Mailbox.zeroCell)
        (if s.processes.NameExists i then s.written i else []) hthread' hempty ?_ ?_
      · convert hmove using 1
        refine Flow.ext ?_ (funext fun w => ?_) ?_ rfl ?_
        · show (s.processes.construct who true).live = s.processes.live
          simp only [Processes.construct, hpc, if_true]
          rfl
        · show ((Network.setPeer _ who _).peer w).view page
            ((s.processes.construct who true).proc w).thisMailslot = _
          have hproc : (s.processes.construct who true).proc w
              = Function.update s.processes.proc who { s.processes.proc who with
                hMailBox := Function.update (s.processes.proc who).hMailBox i true
                thisMailslot := some i
                pc := .running } w := by
            simp only [Processes.construct, hpc, if_true]
            rfl
          rw [hproc]
          by_cases hw : w = who
          · subst hw
            rw [setPeer_self, Function.update_self, Flow.setView_self, Peer.view, hwrites hmain',
              ite_self]
            simp only [flow, Peer.view, hnone, if_true]
          · rw [setPeer_of_ne _ hw, Function.update_of_ne hw, Flow.setView_of_ne _ _ hw]
            rfl
        · show (if _ then _ else _) = _
          split
          · exact (Function.update_eq_self _ _).symm
          · rfl
        · show (if _ then _ else _) = _
          split
          · exact (Function.update_eq_self _ _).symm
          · rfl
      · split
        · exact Or.inl rfl
        · exact Or.inr rfl
      · -- an owner has a handle, and the name would exist
        exact fun hnew w hw hid => hfresh hnew rfl ⟨w, hw, (h w hw).owns i hid⟩
    simp only [if_true] at hstep
    split at hstep
    · cases hstep
      exact .single (hclaimed (by simp [MainPc.Opened]) (Or.inr rfl))
    · cases hstep
      exact .single (hclaimed (by simp [MainPc.Opened]) (Or.inl hthread))

/-- The rest of `myCreateMailslot`. -/
theorem Sound.flow_emptyFirst (h : s.Sound page) (hlive : who ∈ s.processes.live) {i : Fin maxBox}
    (hmain : (s.peer who).main = .emptyFirst i) {creates maps : Bool}
    (hstep : s.construct page who creates maps = .ok s') :
    ReflTransGen (Flow.Moves page fresh) (s.flow page) (s'.flow page) := by
  obtain ⟨hid, hthread⟩ := (h who hlive).emptyFirst i hmain
  simp only [Network.construct, hmain] at hstep
  obtain ⟨p, hadd, hstep⟩ := of_bind_eq_ok hstep
  obtain ⟨l, rfl⟩ := addConnection_eq hadd
  cases hstep
  have hmonitor : ((s.flow page).box who i).monitor = .emptyFirst := hthread
  refine flow_monitored hlive hid (Eq.refl (Function.update s.cell i _)) ?_ ?_
  · simp only [Mailbox.stepMonitor, hmonitor]
    rfl
  · show Peer.view page { s.peer who with
      pConnectionList := l, main := .broadcast 0, thread := .checkFrom } _ = _
    simp only [flow, Peer.view, Peer.writes, MainPc.writes, hmain]

/-- A round of `SendBroadcastMsg`: the greeting is handed over and written at once. -/
theorem Sound.flow_broadcast (h : s.Sound page) (hlive : who ∈ s.processes.live) {index : Nat}
    (hmain : (s.peer who).main = .broadcast index) {creates maps : Bool}
    (hstep : s.construct page who creates maps = .ok s') :
    ReflTransGen (Flow.Moves page fresh) (s.flow page) (s'.flow page) := by
  have hpeer := h who hlive
  have hunopened : ¬ (s.peer who).main.Opened := by simp [MainPc.Opened, hmain]
  obtain ⟨hinit, -⟩ := hpeer.unopened hunopened
  -- the counter of the loop is not seen
  have hnext : Peer.view page { s.peer who with main := .broadcast (index + 1) }
      (s.processes.proc who).thisMailslot
        = (s.peer who).view page (s.processes.proc who).thisMailslot := by
    simp only [Peer.view, Peer.writes, MainPc.writes, hmain]
  simp only [Network.construct, hmain] at hstep
  split at hstep
  · next hindex =>
    split at hstep
    · -- the greeting is handed over, and then it is the one write that is due
      cases hid : (s.processes.proc who).thisMailslot with
      | none =>
        simp only [hid] at hstep
        cases hstep
        exact .refl
      | some fromBox =>
        simp only [hid] at hstep
        generalize hs₁ : Network.setPeer { s with
            tweets := s.tweets ++ [⟨who, fromBox, index, greeting⟩] } who
          { s.peer who with main := .broadcast (index + 1) } = s₁ at hstep
        have hconnections : (s₁.peer who).pConnectionList = (s.peer who).pConnectionList := by
          rw [← hs₁, setPeer_self]
        have hwrote : Flow.Moves page fresh _ (s'.flow page) :=
          flow_writeTweets (i := ⟨index, hindex⟩) (hconnections ▸ hpeer.connections) hstep
        have hhanded := @Flow.Moves.handed ι _ page fresh (s.flow page)
          ⟨who, fromBox, index, greeting⟩ 1 (by decide)
        have hflow : s₁.flow page
            = { s.flow page with tweets := s.tweets ++ [⟨who, fromBox, index, greeting⟩] } := by
          rw [← hs₁]
          exact flow_setPeer_same hnext
        have hpending : ((s.flow page).view who).pending = [] := by
          simp only [flow, Peer.view, writes_of_unopened hunopened hinit, ite_self]
        rw [hflow] at hwrote
        rw [hpending, List.nil_append, List.replicate_one] at hhanded
        refine ReflTransGen.tail (.single hhanded) ?_
        have hnone : ((Flow.view { s.flow page with
            tweets := s.tweets ++ [⟨who, fromBox, index, greeting⟩] }) who).pending = [] := hpending
        rw [hnone] at hwrote
        exact hwrote
    · cases hstep
      rw [flow_setPeer_same hnext]
  · rw [flow_openWindow hunopened hinit hstep]

/-- A process starts. -/
theorem flow_start (hnew : who ∉ s.processes.live) (msgId : Int32) :
    flow page { s.setPeer who (.new msgId) with processes := s.processes.step (.start who) }
      = { (s.flow page).setView who .new with live := insert who s.processes.live } := by
  have hstart : s.processes.step (.start who)
      = ⟨insert who s.processes.live, Function.update s.processes.proc who .new⟩ := if_neg hnew
  rw [hstart]
  refine Flow.ext rfl (funext fun w => ?_) rfl rfl rfl
  show ((s.setPeer who (.new msgId)).peer w).view page
    (Function.update s.processes.proc who .new w).thisMailslot = ((s.flow page).setView who .new).view w
  by_cases hw : w = who
  · subst hw
    rw [setPeer_self, Function.update_self, Flow.setView_self]
    rfl
  · rw [setPeer_of_ne _ hw, Function.update_of_ne hw, Flow.setView_of_ne _ _ hw]
    rfl

/-! ### Steps

Every event is taken to its moves. The condition that a mapping created is new goes along, since a
mailbox that is created starts a new list of what has been written. -/

/-- A mapping that is created did not exist. -/
def CreatesFresh (s : Network ι) : NetworkEvent ι → Prop
  | .construct who creates _ => s.processes.CreatesFresh (.construct who creates)
  | .start _ _ | .thread _ | .clickSend _ _ _ | .timer1 _ _ | .timer2 _ | .write _ | .exit _ => True

instance (s : Network ι) (event : NetworkEvent ι) : Decidable (s.CreatesFresh event) :=
  match event with
  | .construct who creates _ =>
    inferInstanceAs (Decidable (who ∈ s.processes.live → creates = true →
      ∀ i, (s.processes.proc who).pc = .createBox i → ¬ s.processes.NameExists i))
  | .start _ _ | .thread _ | .clickSend _ _ _ | .timer1 _ _ | .timer2 _ | .write _ | .exit _ =>
    isTrue trivial

/-- **One step** of the network is a sequence of moves. -/
theorem step_flow (h : s.Sound page) {event : NetworkEvent ι} (hstep : s.step page event = .ok s') :
    ReflTransGen (Flow.Moves page (s.CreatesFresh event)) (s.flow page) (s'.flow page) := by
  -- what a process is not about to do changes nothing
  have hidle {x : Except NetworkFault (Network ι)} {ready : Prop} [Decidable ready]
      (hif : (if ready then x else .ok s) = .ok s')
      (hx : ready → x = .ok s' → ReflTransGen (Flow.Moves page (s.CreatesFresh event)) (s.flow page)
        (s'.flow page)) :
      ReflTransGen (Flow.Moves page (s.CreatesFresh event)) (s.flow page) (s'.flow page) := by
    split at hif
    · next hready => exact hx hready hif
    · cases hif
      exact .refl
  cases event with
  | start who msgId =>
    by_cases hlive : who ∈ s.processes.live
    · rw [show s.step page (.start who msgId) = .ok s from if_pos hlive] at hstep
      cases hstep
      exact .refl
    · rw [show s.step page (.start who msgId) = _ from if_neg hlive] at hstep
      cases hstep
      rw [flow_start hlive]
      exact .single (.joined who)
  | construct who creates maps =>
    refine hidle hstep fun hlive hstep => ?_
    cases hmain : (s.peer who).main with
    | constructing =>
      cases hpc : (s.processes.proc who).pc with
      | openBox i => rw [h.flow_openBox hlive hmain hpc hstep]
      | createBox i =>
        have hfree (hfresh : s.CreatesFresh (.construct who creates maps)) (hcreates : creates = true) :=
          hfresh hlive hcreates i hpc
        exact h.flow_createBox hlive hmain hpc hfree hstep
      | running =>
        simp only [Network.construct, hmain, hpc] at hstep
        cases hstep
        exact .refl
    | emptyFirst i => exact h.flow_emptyFirst hlive hmain hstep
    | broadcast index => exact h.flow_broadcast hlive hmain hstep
    | messageLoop | sending box tmp rounds =>
      simp only [Network.construct, hmain] at hstep
      cases hstep
      exact .refl
  | thread who => exact hidle hstep fun hlive hstep => flow_stepThread hlive hstep
  | clickSend who selectedIndex data =>
    refine hidle hstep fun hready hstep => ?_
    cases hstep
    exact h.flow_clickSend hready.1 hready.2 selectedIndex data
  | timer1 who maps => exact hidle hstep fun _ hstep => flow_timer1 hstep
  | timer2 who =>
    refine hidle hstep fun hready hstep => ?_
    rw [h.flow_timer2 hready.1 hready.2 hstep]
  | write who => exact hidle hstep fun hlive hstep => h.flow_writeRound hlive hstep
  | exit who =>
    cases hstep
    exact .single (.left who)

end Step

/-! ### Runs

A run of the network is a run of moves, so that what every move keeps holds in every state reached.
`written_in_turn` needs no condition; for `shown_in_order` a mailbox must not start anew while it is
watched. -/

/-- What holds of every state reached. -/
structure Traced (page : CodePage) (s : Network ι) : Prop where
  sound : s.Sound page
  inTurn : (s.flow page).InTurn
  formatted : (s.flow page).Formatted page

theorem initial_traced (page : CodePage) : (initial : Network ι).Traced page where
  sound := fun _ hlive => absurd hlive (Finset.notMem_empty _)
  inTurn := fun _ _ => List.nil_sublist _
  formatted := ⟨fun _ _ hentry => absurd hentry List.not_mem_nil, fun _ => rfl⟩

/-- No step faults, and all that is known of a network stays so. -/
theorem step_traced (s : Network ι) (event : NetworkEvent ι) (h : s.Traced page) :
    ∃ s', s.step page event = .ok s' ∧ s'.Traced page := by
  obtain ⟨s', hstep, hsound, -⟩ := sound_step h.sound event
  have hflow := step_flow h.sound hstep
  refine ⟨s', hstep, hsound, ?_, ?_⟩
  · exact keeps_of_moves (P := Flow.InTurn) (fun _ _ => Flow.inTurn_moves) hflow h.inTurn
  · exact keeps_of_moves (P := Flow.Formatted page) (fun _ _ => Flow.formatted_moves) hflow h.formatted

/-- Where every mapping created is new, it stays in order too. -/
theorem step_inOrder (s : Network ι) (event : NetworkEvent ι) (hfresh : s.CreatesFresh event)
    (h : s.Traced page ∧ (s.flow page).InOrder) :
    ∃ s', s.step page event = .ok s' ∧ s'.Traced page ∧ (s'.flow page).InOrder := by
  obtain ⟨s', hstep, htraced⟩ := step_traced s event h.1
  have hflow := step_flow h.1.sound hstep
  refine ⟨s', hstep, htraced, ?_⟩
  exact keeps_of_moves (P := Flow.InOrder) (fun _ _ => Flow.inOrder_moves hfresh) hflow h.2

/-- The lines of a window, from what the owner of its mailbox has put. -/
theorem Traced.received (h : s.Traced page) (horder : (s.flow page).InOrder)
    (hlive : who ∈ s.processes.live) {i : Fin maxBox}
    (hid : (s.processes.proc who).thisMailslot = some i) :
    ∃ sent : List (Written ι), sent.Sublist (s.written i) ∧ ∃ n emptied, n ≤ sent.length
      ∧ (∀ k, emptied = some k → 1 ≤ k ∧ k ≤ n)
      ∧ receivedLines (s.peer who).window.history
        = (lagged sent n emptied).map (Written.line page) := by
  obtain ⟨hputs, -⟩ := horder.watched who hlive i hid
  obtain ⟨sent, hsub, hsent⟩ := List.sublist_map_iff.mp hputs
  obtain ⟨emptied, hlags⟩ := (h.sound who hlive).inbox
  have hput : (s.peer who).inbox.sent = sent.map Written.data := hsent
  have hdelivered := hlags.delivered
  have hlength := hlags.length
  rw [hput, lagged_map] at hdelivered
  rw [hput, List.length_map] at hlength
  refine ⟨sent, hsub, (s.peer who).inbox.delivered.length, emptied, hlength, hlags.range, ?_⟩
  -- what is shown is what was delivered; what was delivered lags behind what was put; and what was
  -- put are some of the messages written
  calc receivedLines (s.peer who).window.history
      = (s.peer who).inbox.delivered.map (lineOf page) := h.formatted.received who
    _ = ((lagged sent (s.peer who).inbox.delivered.length emptied).map Written.data).map
          (lineOf page) := congrArg _ hdelivered
    _ = (lagged sent (s.peer who).inbox.delivered.length emptied).map (Written.line page) := by
      rw [List.map_map]
      refine List.map_congr_left fun entry hentry => ?_
      exact (h.formatted.written i entry (hsub.subset (lagged_subset hentry))).lineOf_data

end Network

open Network

/-- **In turn.** In every run, what a process has written to a mailbox is, in its order, what was
handed over in it for this mailbox, each text at most ten times. -/
theorem written_in_turn [DecidableEq ι] (page : CodePage) (events : List (NetworkEvent ι)) :
    ∃ s, (initial : Network ι).run page events = .ok s
      ∧ ∀ sender i, (writtenBy (s.written i) sender).Sublist (handedBy s.tweets sender i) := by
  obtain ⟨s, hrun, hs⟩ := returns step_traced events (initial_traced page)
  exact ⟨s, hrun, fun sender i => (List.sublist_append_left _ _).trans (hs.inTurn sender i)⟩

/-- **In order.** In a run in which every mapping created is new, the lines a window shows as
received are those of some of the writes to its mailbox, in the order in which they were made, but
one of them may be there twice. What is there of one sender is, in its order, what was handed over
in it for this mailbox, each text at most ten times. -/
theorem shown_in_order [DecidableEq ι] (page : CodePage) (events : List (NetworkEvent ι))
    (hfresh : Permitted (step page) CreatesFresh (initial : Network ι) events) :
    ∃ s, (initial : Network ι).run page events = .ok s
      ∧ ∀ who ∈ s.processes.live, ∀ i, (s.processes.proc who).thisMailslot = some i →
        ∃ sent : List (Written ι), sent.Sublist (s.written i)
          ∧ (∃ n emptied, n ≤ sent.length ∧ (∀ k, emptied = some k → 1 ≤ k ∧ k ≤ n)
            ∧ receivedLines (s.peer who).window.history
              = (lagged sent n emptied).map (Written.line page))
          ∧ ∀ sender, (writtenBy sent sender).Sublist (handedBy s.tweets sender i) := by
  have hinit : ((initial : Network ι).flow page).InOrder :=
    ⟨fun _ ha => absurd ha (Finset.notMem_empty _), fun _ hwho => absurd hwho (Finset.notMem_empty _)⟩
  obtain ⟨s, hrun, hs, horder⟩ :=
    Permitted.returns step_inOrder events ⟨initial_traced page, hinit⟩ hfresh
  refine ⟨s, hrun, fun who hlive i hid => ?_⟩
  obtain ⟨sent, hsub, hlines⟩ := hs.received horder hlive hid
  refine ⟨sent, hsub, hlines, fun sender => ?_⟩
  have hwritten : (writtenBy sent sender).Sublist (writtenBy (s.written i) sender) :=
    (hsub.filter _).map _
  exact hwritten.trans ((List.sublist_append_left _ _).trans (hs.inTurn sender i))

/-- The process `true` starts when `false` watches its mailbox, and greets it; the window of `false`
shows the greeting. -/
def greetingRun : List (NetworkEvent Bool) :=
  .start false 7 :: List.replicate 3 (.construct false true true)
    ++ .start true 8 :: List.replicate 5 (.construct true true true)
    ++ List.replicate 4 (.thread false) ++ List.replicate 11 (.construct false true true)
    ++ [.timer1 false true]

/-- In that run every mapping created is new. -/
theorem shown_in_order_greeting :
    ∃ s, (initial : Network Bool).run latin1 greetingRun = .ok s
      ∧ ∀ who ∈ s.processes.live, ∀ i, (s.processes.proc who).thisMailslot = some i →
        ∃ sent : List (Written Bool), sent.Sublist (s.written i)
          ∧ (∃ n emptied, n ≤ sent.length ∧ (∀ k, emptied = some k → 1 ≤ k ∧ k ≤ n)
            ∧ receivedLines (s.peer who).window.history
              = (lagged sent n emptied).map (Written.line latin1))
          ∧ ∀ sender, (writtenBy sent sender).Sublist (handedBy s.tweets sender i) :=
  shown_in_order latin1 greetingRun (by decide +kernel)

end OsLab.Twitter
