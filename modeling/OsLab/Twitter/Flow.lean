import OsLab.Twitter.Provenance

/-!
# OsLab.Twitter.Flow — the way of the messages

The network as far as messages go. A tweet that is handed over becomes writes that its process
still has to make; a write puts a message into a mailbox; the thread that watches the mailbox puts
what it finds into the list; a read shows it. What decides which of this happens when is left out.

* **`Flow.Moves`**: what can happen to the messages.
* **`Flow.InTurn`**: a process writes to a mailbox in the order in which its tweets were handed over.
* **`Flow.InOrder`**: a mailbox with one owner is the `Twitter.Mailbox` of that owner, whose thread
  puts what was written in the order of the writes.
* **`Flow.Formatted`**: a line shows the text of the write it comes from.
-/

namespace OsLab.Twitter

variable {ι : Type} {page : CodePage}

/-- A process, as far as messages go. `sent` is what its thread has put into the list, `received`
what its window shows of it, and `pending` has one entry for each write it still has to make. -/
structure View where
  mailbox : MailslotId
  thread : MonitorPc
  pTempReadBuffer : MailBoxMessage
  sent : List MailBoxFormat
  delivered : List MailBoxFormat
  received : List (List UInt16)
  pending : List (Int × List UInt8)

def View.new : View where
  mailbox := none
  thread := .createMapping
  pTempReadBuffer := .allocateMsg
  sent := []
  delivered := []
  received := []
  pending := []

/-- A network, as far as messages go. -/
@[ext] structure Flow (ι : Type) where
  live : Finset ι
  view : ι → View
  cell : Fin maxBox → MailBoxFormat
  tweets : List (Tweet ι)
  written : Fin maxBox → List (Written ι)

namespace Flow

/-- Mailbox `i` with `who` for its owner. -/
def box (f : Flow ι) (who : ι) (i : Fin maxBox) : Mailbox Unit where
  cell := f.cell i
  monitor := (f.view who).thread
  pTempReadBuffer := (f.view who).pTempReadBuffer
  client := fun _ => { thisMailslot := none, msgId := 0, pLocalWriteBuffer := .allocateMsg,
                       connected := true }
  written := (f.written i).map Written.data
  puts := (f.view who).sent

variable [DecidableEq ι]

def setView (f : Flow ι) (who : ι) (v : View) : Flow ι :=
  { f with view := Function.update f.view who v }

theorem setView_self (f : Flow ι) (who : ι) (v : View) : (f.setView who v).view who = v :=
  Function.update_self _ _ _

theorem setView_of_ne (f : Flow ι) {who w : ι} (v : View) (h : w ≠ who) :
    (f.setView who v).view w = f.view w :=
  Function.update_of_ne h _ _

/-- To give a process the view it has changes nothing. -/
theorem setView_view (f : Flow ι) (who : ι) : f.setView who (f.view who) = f := by
  rw [setView, Function.update_eq_self]

theorem setView_setView (f : Flow ι) (who : ι) (v v' : View) :
    (f.setView who v).setView who v' = f.setView who v' := by
  rw [setView, setView, setView, Function.update_idem]

/-- A part of a process that its new view keeps. -/
theorem setView_apply {α : Type} (part : View → α) (f : Flow ι) (who : ι) (v : View)
    (h : part v = part (f.view who)) (w : ι) : part ((f.setView who v).view w) = part (f.view w) := by
  by_cases hw : w = who
  · rw [hw, setView_self, h]
  · rw [setView_of_ne f v hw]

/-- What can happen to the messages. `fresh` says that a mapping created is new. -/
inductive Moves (page : CodePage) (fresh : Prop) (f : Flow ι) : Flow ι → Prop where
  | joined (who : ι) : Moves page fresh f { f.setView who .new with live := insert who f.live }
  | left (who : ι) : Moves page fresh f { f with live := f.live.erase who }
  /-- `who` takes mailbox `i` for its own; `c` and `entries` are what is there now. -/
  | claimed (who : ι) (i : Fin maxBox) (thread : MonitorPc) (c : MailBoxFormat)
      (entries : List (Written ι)) (hthread : thread = .createMapping ∨ thread = .emptyFirst)
      (hsent : (f.view who).sent = []) (hentries : entries = f.written i ∨ entries = [])
      (hfree : fresh → ∀ w ∈ f.live, (f.view w).mailbox ≠ some i) :
      Moves page fresh f { f.setView who { f.view who with mailbox := some i, thread } with
        cell := Function.update f.cell i c
        written := Function.update f.written i entries }
  /-- A statement of the owner of mailbox `i`. -/
  | monitored (who : ι) (i : Fin maxBox) (hlive : who ∈ f.live)
      (hid : (f.view who).mailbox = some i) :
      Moves page fresh f { f.setView who { f.view who with
          thread := (f.box who i).stepMonitor.monitor
          pTempReadBuffer := (f.box who i).stepMonitor.pTempReadBuffer
          sent := (f.box who i).stepMonitor.puts } with
        cell := Function.update f.cell i (f.box who i).stepMonitor.cell }
  /-- A tweet is handed over, to be written up to `n` times. -/
  | handed (tweet : Tweet ι) (n : Nat) (hn : n ≤ writeRounds) :
      Moves page fresh f { f.setView tweet.sender { f.view tweet.sender with
          pending := (f.view tweet.sender).pending
            ++ List.replicate n (tweet.toBox, tweet.text) } with
        tweets := f.tweets ++ [tweet] }
  | wrote (who : ι) (i : Fin maxBox) (Msg : List UInt8) (rest : List (Int × List UInt8))
      (this : MailBoxMessage) (id : Int32)
      (hpending : (f.view who).pending = (Int.ofNat i, Msg) :: rest) :
      Moves page fresh f { f.setView who { f.view who with pending := rest } with
        cell := Function.update f.cell i
          (this.formatMsgOut page.wideText (f.view who).mailbox.toInt32 Msg id).data
        written := Function.update f.written i (f.written i ++ [{
          sender := who
          fromBox := (f.view who).mailbox
          Msg
          data := (this.formatMsgOut page.wideText (f.view who).mailbox.toInt32 Msg id).data }]) }
  /-- A write that finds no buffer. -/
  | dropped (who : ι) (write : Int × List UInt8) (rest : List (Int × List UInt8))
      (hpending : (f.view who).pending = write :: rest) :
      Moves page fresh f (f.setView who { f.view who with pending := rest })
  | read (who : ι) (msg : MailBoxFormat) (data : List UInt8)
      (hformat : (MailBoxMessage.mk msg).formatMsgIn page = .ok data) :
      Moves page fresh f (f.setView who { f.view who with
        delivered := (f.view who).delivered ++ [msg]
        received := (f.view who).received ++ [page.wideText data] })

end Flow

/-! ## In turn

A process writes what it was given in the order in which it was given it. The writes it has made to
a mailbox, followed by those it still has to make there, are part of the tweets handed over for that
mailbox, each counted as often as `RunClient` goes round its loop. -/

section InTurn

variable [DecidableEq ι]

/-- What `who` has written to a mailbox. -/
def writtenBy (entries : List (Written ι)) (who : ι) : List (List UInt8) :=
  (entries.filter (·.sender = who)).map Written.Msg

/-- What it has still to write to mailbox `i`. -/
def pendingTo (pending : List (Int × List UInt8)) (i : Fin maxBox) : List (List UInt8) :=
  (pending.filter (·.1 = Int.ofNat i)).map Prod.snd

/-- What has been handed over in `who` for mailbox `i`, as often as it may be written. -/
def handedBy (tweets : List (Tweet ι)) (who : ι) (i : Fin maxBox) : List (List UInt8) :=
  (tweets.filter fun tweet => tweet.sender = who ∧ tweet.toBox = Int.ofNat i).flatMap
    fun tweet => List.replicate writeRounds tweet.text

variable {who : ι} {i : Fin maxBox}

/-- One more write counts for its sender only. -/
theorem writtenBy_append (entries : List (Written ι)) (entry : Written ι) :
    writtenBy (entries ++ [entry]) who
      = writtenBy entries who ++ if entry.sender = who then [entry.Msg] else [] := by
  unfold writtenBy
  rw [List.filter_append, List.map_append, List.filter_singleton]
  by_cases h : entry.sender = who <;> simp [h]

/-- Writes that come to stand behind the others. -/
theorem pendingTo_append (pending more : List (Int × List UInt8)) :
    pendingTo (pending ++ more) i = pendingTo pending i ++ pendingTo more i := by
  unfold pendingTo
  rw [List.filter_append, List.map_append]

/-- The next write, when it goes to mailbox `i`. -/
theorem pendingTo_cons_self (Msg : List UInt8) (pending : List (Int × List UInt8)) :
    pendingTo ((Int.ofNat i, Msg) :: pending) i = Msg :: pendingTo pending i := by
  have hself : decide ((Int.ofNat i, Msg).1 = Int.ofNat i) = true := decide_eq_true rfl
  unfold pendingTo
  rw [List.filter_cons, if_pos hself, List.map_cons]

theorem pendingTo_sublist_cons (write : Int × List UInt8) (pending : List (Int × List UInt8)) :
    (pendingTo pending i).Sublist (pendingTo (write :: pending) i) :=
  ((List.sublist_cons_self write pending).filter _).map _

/-- A tweet counts for the mailbox it is for, as often as it is to be written. -/
theorem pendingTo_replicate (toBox : Int) (n : Nat) (text : List UInt8) :
    pendingTo (List.replicate n (toBox, text)) i
      = if toBox = Int.ofNat i then List.replicate n text else [] := by
  unfold pendingTo
  rw [List.filter_replicate]
  by_cases h : toBox = Int.ofNat i
  · rw [if_pos (decide_eq_true h), if_pos h, List.map_replicate]
  · rw [if_neg fun heq => h (of_decide_eq_true heq), if_neg h, List.map_nil]

/-- A tweet handed over counts for its sender and its mailbox, ten times. -/
theorem handedBy_append (tweets : List (Tweet ι)) (tweet : Tweet ι) :
    handedBy (tweets ++ [tweet]) who i = handedBy tweets who i
      ++ if tweet.sender = who ∧ tweet.toBox = Int.ofNat i
        then List.replicate writeRounds tweet.text else [] := by
  unfold handedBy
  rw [List.filter_append, List.flatMap_append]
  by_cases h : tweet.sender = who ∧ tweet.toBox = Int.ofNat i
  · rw [if_pos h, List.filter_cons, if_pos (decide_eq_true h), List.filter_nil,
      List.flatMap_singleton]
  · rw [if_neg h, List.filter_cons, if_neg fun heq => h (of_decide_eq_true heq), List.filter_nil,
      List.flatMap_nil]

namespace Flow

variable {f f' : Flow ι} {fresh : Prop}

/-- What a process writes to a mailbox, and has still to write, was handed over in that order, and
is not written more often than `RunClient` goes round its loop. -/
def InTurn (f : Flow ι) : Prop :=
  ∀ w i, (writtenBy (f.written i) w ++ pendingTo (f.view w).pending i).Sublist (handedBy f.tweets w i)

/-- Some of it may be lost. -/
theorem InTurn.change (h : f.InTurn) (htweets : f'.tweets = f.tweets)
    (hsub : ∀ w i, (writtenBy (f'.written i) w ++ pendingTo (f'.view w).pending i).Sublist
      (writtenBy (f.written i) w ++ pendingTo (f.view w).pending i)) : f'.InTurn := by
  intro w i
  rw [htweets]
  exact (hsub w i).trans (h w i)

/-- A process that writes nothing. -/
theorem InTurn.keep (h : f.InTurn) (hpending : ∀ w, (f'.view w).pending = (f.view w).pending)
    (htweets : f'.tweets = f.tweets)
    (hwritten : ∀ i, f'.written i = f.written i ∨ f'.written i = []) : f'.InTurn := by
  refine h.change htweets fun w i => ?_
  rw [hpending w]
  refine List.Sublist.append_right ?_ _
  rcases hwritten i with hsame | hnil
  · rw [hsame]
  · rw [hnil]
    exact List.nil_sublist _

/-- One move. Only `handed` and `wrote` have something to do with it. -/
theorem inTurn_moves (hmove : f.Moves page fresh f') (h : f.InTurn) : f'.InTurn := by
  cases hmove with
  | joined who =>
    refine h.change rfl fun w i => List.Sublist.append_left ?_ _
    by_cases hw : w = who
    · -- a process that starts has nothing to write
      show (pendingTo ((f.setView who .new).view w).pending i).Sublist _
      rw [hw, setView_self]
      exact List.nil_sublist _
    · show (pendingTo ((f.setView who .new).view w).pending i).Sublist _
      rw [setView_of_ne f _ hw]
  | left who => exact h
  | claimed who j thread c entries hthread hsent hentries hfree =>
    -- the list of a mailbox that is created starts anew
    refine h.keep (setView_apply View.pending f who _ rfl) rfl fun i => ?_
    show Function.update f.written j entries i = f.written i
      ∨ Function.update f.written j entries i = []
    by_cases hi : i = j
    · subst hi
      rw [Function.update_self]
      exact hentries
    · exact Or.inl (Function.update_of_ne hi _ _)
  | monitored who j hlive hid =>
    exact h.keep (setView_apply View.pending f who _ rfl) rfl fun _ => Or.inl rfl
  | handed tweet n hn =>
    intro w i
    show (writtenBy (f.written i) w ++ pendingTo ((f.setView tweet.sender _).view w).pending i).Sublist
      (handedBy (f.tweets ++ [tweet]) w i)
    rw [handedBy_append]
    by_cases hw : w = tweet.sender
    · subst hw
      rw [setView_self, pendingTo_append, ← List.append_assoc, pendingTo_replicate]
      -- its writes come last, and there are at most ten of them
      refine List.Sublist.append (h _ i) ?_
      by_cases hi : tweet.toBox = Int.ofNat i
      · rw [if_pos hi, if_pos ⟨rfl, hi⟩]
        exact (List.replicate_sublist_replicate tweet.text).mpr hn
      · rw [if_neg hi]
        exact List.nil_sublist _
    · rw [setView_of_ne f _ hw]
      exact (h w i).trans (List.sublist_append_left _ _)
  | wrote who j Msg rest this id hpending =>
    refine h.change rfl fun w i => ?_
    show (writtenBy (Function.update f.written j _ i) w
      ++ pendingTo ((f.setView who _).view w).pending i).Sublist _
    by_cases hw : w = who
    · subst hw
      rw [setView_self, hpending]
      by_cases hi : i = j
      · -- the write that was due stands at the end of those made
        subst hi
        rw [Function.update_self, writtenBy_append, if_pos rfl, pendingTo_cons_self,
          List.append_assoc]
        exact List.Sublist.refl _
      · rw [Function.update_of_ne hi]
        exact List.Sublist.append_left (pendingTo_sublist_cons _ _) _
    · rw [setView_of_ne f _ hw]
      refine List.Sublist.append_right ?_ _
      by_cases hi : i = j
      · subst hi
        rw [Function.update_self, writtenBy_append, if_neg (Ne.symm hw), List.append_nil]
      · rw [Function.update_of_ne hi]
  | dropped who write rest hpending =>
    refine h.change rfl fun w i => List.Sublist.append_left ?_ _
    by_cases hw : w = who
    · rw [hw, setView_self, hpending]
      exact pendingTo_sublist_cons write rest
    · rw [setView_of_ne f _ hw]
  | read who msg data hformat =>
    exact h.keep (setView_apply View.pending f who _ rfl) rfl fun _ => Or.inl rfl

end Flow

end InTurn

/-! ## In order

A mailbox that has one owner behaves as if it were alone: the other processes are its clients, and
the thread of its owner takes what they have written and puts it in the order of the writes. The
invariant is the one of `Twitter.Mailbox`, held at every mailbox that is owned. -/

namespace Flow

variable [DecidableEq ι] {f f' : Flow ι} {fresh : Prop}

/-- Every mailbox has one owner, and with it is in order. -/
structure InOrder (f : Flow ι) : Prop where
  unique : ∀ a ∈ f.live, ∀ b ∈ f.live, ∀ i : Fin maxBox,
    (f.view a).mailbox = some i → (f.view b).mailbox = some i → a = b
  watched : ∀ who ∈ f.live, ∀ i, (f.view who).mailbox = some i → (f.box who i).InOrder

omit [DecidableEq ι] in
/-- The owners stay the same. -/
theorem InOrder.keep (h : f.InOrder) (hlive : f'.live = f.live)
    (hmailbox : ∀ w, (f'.view w).mailbox = (f.view w).mailbox)
    (hbox : ∀ w ∈ f.live, ∀ i, (f.view w).mailbox = some i → (f'.box w i).InOrder) : f'.InOrder := by
  refine ⟨fun a ha b hb i hai hbi => ?_, fun w hw i hi => ?_⟩
  · rw [hlive] at ha hb
    rw [hmailbox] at hai hbi
    exact h.unique a ha b hb i hai hbi
  · rw [hlive] at hw
    rw [hmailbox] at hi
    exact hbox w hw i hi

omit [DecidableEq ι] in
/-- What its owner has not touched, and nobody else either. -/
theorem box_untouched {who : ι} {i : Fin maxBox} (h : (f.box who i).InOrder)
    (hcell : f'.cell i = f.cell i) (hwritten : f'.written i = f.written i)
    (hthread : (f'.view who).thread = (f.view who).thread)
    (htemp : (f'.view who).pTempReadBuffer = (f.view who).pTempReadBuffer)
    (hsent : (f'.view who).sent = (f.view who).sent) : (f'.box who i).InOrder := by
  unfold box
  rw [hcell, hwritten, hthread, htemp, hsent]
  exact h

/-- A move of one process that is none of its thread's, and leaves the mailboxes alone. -/
theorem InOrder.still (h : f.InOrder) {who : ι} {v : View}
    (hview : f'.view = (f.setView who v).view) (hlive : f'.live = f.live) (hcell : f'.cell = f.cell)
    (hwritten : f'.written = f.written) (hmailbox : v.mailbox = (f.view who).mailbox)
    (hthread : v.thread = (f.view who).thread)
    (htemp : v.pTempReadBuffer = (f.view who).pTempReadBuffer) (hsent : v.sent = (f.view who).sent) :
    f'.InOrder := by
  refine h.keep hlive (fun w => ?_) fun w hw i hi => ?_
  · rw [hview]
    exact setView_apply View.mailbox f who v hmailbox w
  · refine box_untouched (h.watched w hw i hi) (by rw [hcell]) (by rw [hwritten]) ?_ ?_ ?_ <;>
      rw [hview]
    · exact setView_apply View.thread f who v hthread w
    · exact setView_apply View.pTempReadBuffer f who v htemp w
    · exact setView_apply View.sent f who v hsent w

/-- A mailbox whose thread does not run yet. -/
theorem inOrder_unwatched {b : Mailbox Unit} (hputs : b.puts = [])
    (hmonitor : b.monitor = .createMapping ∨ b.monitor = .emptyFirst) : b.InOrder := by
  refine ⟨hputs ▸ List.nil_sublist _, ?_⟩
  rcases hmonitor with h | h <;> rw [h] <;> trivial

/-- The owner changes nothing else. -/
theorem stepMonitor_frame (b : Mailbox Unit) :
    b.stepMonitor.client = b.client ∧ b.stepMonitor.written = b.written := by
  unfold Mailbox.stepMonitor
  cases b.monitor with
  | createMapping | emptyFirst | checkFrom | copyCell | emptyMailbox => exact ⟨rfl, rfl⟩
  | put =>
    dsimp only
    split <;> exact ⟨rfl, rfl⟩

/-- One move, where what is created is new. -/
theorem inOrder_moves (hfresh : fresh) (hmove : f.Moves page fresh f') (h : f.InOrder) :
    f'.InOrder := by
  cases hmove with
  | joined who =>
    -- a process that starts owns nothing, so every owner has been one before
    have hnew (w : ι) (i : Fin maxBox) (hi : ((f.setView who .new).view w).mailbox = some i) :
        w ≠ who := by
      rintro rfl
      rw [setView_self] at hi
      cases hi
    have hold (w : ι) (hw : w ∈ insert who f.live) (i : Fin maxBox)
        (hi : ((f.setView who .new).view w).mailbox = some i) :
        w ∈ f.live ∧ (f.view w).mailbox = some i := by
      have hne := hnew w i hi
      rw [setView_of_ne f _ hne] at hi
      exact ⟨Finset.mem_of_mem_insert_of_ne hw hne, hi⟩
    refine ⟨fun a ha b hb i hai hbi => ?_, fun w hw i hi => ?_⟩
    · obtain ⟨ha', hai'⟩ := hold a ha i hai
      obtain ⟨hb', hbi'⟩ := hold b hb i hbi
      exact h.unique a ha' b hb' i hai' hbi'
    · obtain ⟨hw', hi'⟩ := hold w hw i hi
      have hview : (f.setView who .new).view w = f.view w := setView_of_ne f _ (hnew w i hi)
      exact box_untouched (h.watched w hw' i hi') rfl rfl (congrArg View.thread hview)
        (congrArg View.pTempReadBuffer hview) (congrArg View.sent hview)
  | left who =>
    -- an owner fewer
    have hsub {w : ι} (hw : w ∈ f.live.erase who) : w ∈ f.live := Finset.mem_of_mem_erase hw
    exact ⟨fun a ha b hb => h.unique a (hsub ha) b (hsub hb), fun w hw => h.watched w (hsub hw)⟩
  | claimed who i thread c entries hthread hsent hentries hfree =>
    generalize hv : { f.view who with mailbox := some i, thread } = v
    have hself : (f.setView who v).view who = v := setView_self f who v
    -- nobody has had the mailbox
    have hother (w : ι) (hw : w ∈ f.live) (hne : w ≠ who) (j : Fin maxBox)
        (hj : ((f.setView who v).view w).mailbox = some j) :
        (f.view w).mailbox = some j ∧ j ≠ i := by
      rw [setView_of_ne f v hne] at hj
      exact ⟨hj, fun heq => hfree hfresh w hw (heq ▸ hj)⟩
    -- and `who` owns this one only
    have hown (j : Fin maxBox) (hj : ((f.setView who v).view who).mailbox = some j) : j = i := by
      rw [hself, ← hv] at hj
      exact (Option.some.inj hj).symm
    refine ⟨fun a ha b hb j haj hbj => ?_, fun w hw j hj => ?_⟩
    · by_cases hawho : a = who
      · subst hawho
        by_contra hne
        exact (hother b hb (fun heq => hne heq.symm) j hbj).2 (hown j haj)
      · obtain ⟨haj', hji⟩ := hother a ha hawho j haj
        by_cases hbwho : b = who
        · subst hbwho
          exact absurd (hown j hbj) hji
        · exact h.unique a ha b hb j haj' (hother b hb hbwho j hbj).1
    · by_cases hwho : w = who
      · subst hwho
        -- the thread of the new owner has not been created
        have hview : ((f.setView w v).view w).sent = []
            ∧ ((f.setView w v).view w).thread = thread := by
          rw [hself, ← hv]
          exact ⟨hsent, rfl⟩
        exact inOrder_unwatched hview.1 (by rcases hthread with h | h <;> simp [box, hview.2, h])
      · obtain ⟨hj', hji⟩ := hother w hw hwho j hj
        have hview : (f.setView who v).view w = f.view w := setView_of_ne f v hwho
        exact box_untouched (h.watched w hw j hj') (Function.update_of_ne hji _ _)
          (Function.update_of_ne hji _ _) (congrArg View.thread hview)
          (congrArg View.pTempReadBuffer hview) (congrArg View.sent hview)
  | monitored who i hlive hid =>
    -- the mailbox takes a step of its own, and it is the only one of this owner
    obtain ⟨hclient, hwritten⟩ := stepMonitor_frame (f.box who i)
    have hstep := Mailbox.inOrder_stepMonitor (h.watched who hlive i hid)
    generalize (f.box who i).stepMonitor = b at hclient hwritten hstep
    refine h.keep rfl (setView_apply View.mailbox f who _ rfl) fun w hw j hj => ?_
    by_cases hwho : w = who
    · subst hwho
      obtain rfl : i = j := Option.some.inj (hid.symm.trans hj)
      have hbox : Flow.box { f.setView w { f.view w with
            thread := b.monitor, pTempReadBuffer := b.pTempReadBuffer, sent := b.puts } with
          cell := Function.update f.cell i b.cell } w i = b := by
        unfold box
        dsimp only
        rw [setView_self, Function.update_self]
        obtain ⟨cell, monitor, temp, client, written, puts⟩ := b
        cases hclient
        cases hwritten
        rfl
      rw [hbox]
      exact hstep
    · -- the mailbox is another one
      have hji : j ≠ i := fun heq => hwho (h.unique w hw who hlive i (heq ▸ hj) hid)
      have hview (v : View) : (f.setView who v).view w = f.view w := setView_of_ne f v hwho
      exact box_untouched (h.watched w hw j hj) (Function.update_of_ne hji _ _) rfl
        (congrArg View.thread (hview _)) (congrArg View.pTempReadBuffer (hview _))
        (congrArg View.sent (hview _))
  | wrote who i Msg rest this id hpending =>
    generalize hmsg : (this.formatMsgOut page.wideText (f.view who).mailbox.toInt32 Msg id).data = msg
    -- the id of a mailbox, or `-1`
    have hFROM : msg.FROM ≠ noData := by
      rw [← hmsg, MailBoxMessage.formatMsgOut_FROM]
      exact Mailbox.toInt32_ne_noData _
    generalize hv : { f.view who with pending := rest } = v
    have hview (α : Type) (part : View → α) (hpart : part v = part (f.view who)) (w : ι) :
        part ((f.setView who v).view w) = part (f.view w) := setView_apply part f who v hpart w
    refine h.keep rfl (hview _ View.mailbox (by rw [← hv])) fun w hw j hj => ?_
    have hthread := hview _ View.thread (by rw [← hv]) w
    have htemp := hview _ View.pTempReadBuffer (by rw [← hv]) w
    have hsent := hview _ View.sent (by rw [← hv]) w
    by_cases hji : j = i
    · -- the owner sees a whole message written, wherever its thread is
      subst hji
      have hmove : (f.box w j).Moves (.writeTweets () []) { f.box w j with
          cell := msg, written := (f.box w j).written ++ [msg] } :=
        .wrote (f.box w j).client msg hFROM fun hempty => hempty rfl
      have hwrote := Mailbox.inOrder_moves hmove (h.watched w hw j hj)
      unfold box at hwrote ⊢
      dsimp only at hwrote ⊢
      rw [hthread, htemp, hsent, Function.update_self, Function.update_self, List.map_append]
      exact hwrote
    · exact box_untouched (h.watched w hw j hj) (Function.update_of_ne hji _ _)
        (Function.update_of_ne hji _ _) hthread htemp hsent
  | handed tweet n hn => exact h.still rfl rfl rfl rfl rfl rfl rfl rfl
  | dropped who write rest hpending => exact h.still rfl rfl rfl rfl rfl rfl rfl rfl
  | read who msg data hformat => exact h.still rfl rfl rfl rfl rfl rfl rfl rfl

end Flow

/-! ## What is shown

`ReadTweets` shows a message as `FormatMsgIn` renders it. For a message that `WriteTweets` has
formatted this is the text handed over, cut to the length of the buffer. -/

/-- The line that a window shows for a message. -/
def lineOf (page : CodePage) (msg : MailBoxFormat) : List UInt16 :=
  match (MailBoxMessage.mk msg).formatMsgIn page with
  | .ok data => page.wideText data
  | .error _ => []

namespace Written

/-- The line that a window should show for it. -/
def line (page : CodePage) (entry : Written ι) : List UInt16 :=
  shownText page entry.data.pData.id entry.fromBox.toInt32 entry.Msg

/-- `WriteTweets` has formatted the message. -/
def Formatted (page : CodePage) (entry : Written ι) : Prop :=
  ∃ (this : MailBoxMessage) (id : Int32), entry.data
    = (this.formatMsgOut page.wideText entry.fromBox.toInt32 entry.Msg id).data

/-- What the line shows is what was to be shown. -/
theorem Formatted.lineOf_data {entry : Written ι} (h : entry.Formatted page) :
    lineOf page entry.data = entry.line page := by
  obtain ⟨this, id, hdata⟩ := h
  obtain ⟨data, hformat, hshown⟩ := formatMsgIn_of_formatMsgOut (congrArg MailBoxFormat.pData hdata)
  have hFROM : entry.data.FROM = entry.fromBox.toInt32 := by
    rw [hdata, MailBoxMessage.formatMsgOut_FROM]
  rw [lineOf, hformat, line, ← hFROM]
  exact hshown

end Written

namespace Flow

variable [DecidableEq ι] {f f' : Flow ι} {fresh : Prop}

/-- What is in the mailboxes has been formatted, and what has been delivered is shown. -/
structure Formatted (page : CodePage) (f : Flow ι) : Prop where
  written : ∀ i, ∀ entry ∈ f.written i, entry.Formatted page
  received : ∀ w, (f.view w).received = (f.view w).delivered.map (lineOf page)

omit [DecidableEq ι] in
/-- Every write made since has been formatted. -/
theorem Formatted.change (h : f.Formatted page)
    (hwritten : ∀ i, ∀ entry ∈ f'.written i, entry ∈ f.written i ∨ entry.Formatted page)
    (hreceived : ∀ w, (f'.view w).received = (f'.view w).delivered.map (lineOf page)) :
    f'.Formatted page :=
  ⟨fun i entry hentry => (hwritten i entry hentry).elim (h.written i entry) id, hreceived⟩

/-- A process that reads nothing. -/
theorem Formatted.setView (h : f.Formatted page) (who : ι) {v : View}
    (hreceived : v.received = (f.view who).received)
    (hdelivered : v.delivered = (f.view who).delivered) (w : ι) :
    ((f.setView who v).view w).received = ((f.setView who v).view w).delivered.map (lineOf page) := by
  rw [setView_apply View.received f who v hreceived, setView_apply View.delivered f who v hdelivered]
  exact h.received w

/-- One move. -/
theorem formatted_moves (hmove : f.Moves page fresh f') (h : f.Formatted page) :
    f'.Formatted page := by
  -- it is enough to look at the list that changes
  have hupdate {i : Fin maxBox} {entries : List (Written ι)}
      (hentries : ∀ entry ∈ entries, entry ∈ f.written i ∨ entry.Formatted page) (j : Fin maxBox)
      (entry : Written ι) (hentry : entry ∈ Function.update f.written i entries j) :
      entry ∈ f.written j ∨ entry.Formatted page := by
    by_cases hj : j = i
    · subst hj
      rw [Function.update_self] at hentry
      exact hentries entry hentry
    · rw [Function.update_of_ne hj] at hentry
      exact Or.inl hentry
  cases hmove with
  | joined who =>
    refine h.change (fun _ _ => Or.inl) fun w => ?_
    show ((f.setView who .new).view w).received
      = ((f.setView who .new).view w).delivered.map (lineOf page)
    by_cases hw : w = who
    · rw [hw, setView_self]
      rfl
    · rw [setView_of_ne f _ hw]
      exact h.received w
  | left who => exact ⟨h.written, h.received⟩
  | claimed who i thread c entries hthread hsent hentries hfree =>
    refine h.change (hupdate fun entry hentry => Or.inl ?_) (h.setView who rfl rfl)
    rcases hentries with rfl | rfl
    · exact hentry
    · cases hentry
  | monitored who i hlive hid => exact h.change (fun _ _ => Or.inl) (h.setView who rfl rfl)
  | handed tweet n hn => exact h.change (fun _ _ => Or.inl) (h.setView tweet.sender rfl rfl)
  | wrote who i Msg rest this id hpending =>
    refine h.change (hupdate fun entry hentry => ?_) (h.setView who rfl rfl)
    rcases List.mem_append.mp hentry with hold | hnew
    · exact Or.inl hold
    · rw [List.mem_singleton.mp hnew]
      exact Or.inr ⟨this, id, rfl⟩
  | dropped who write rest hpending => exact h.change (fun _ _ => Or.inl) (h.setView who rfl rfl)
  | read who msg data hformat =>
    refine h.change (fun _ _ => Or.inl) fun w => ?_
    by_cases hw : w = who
    · subst hw
      rw [setView_self]
      show (f.view w).received ++ [page.wideText data]
        = ((f.view w).delivered ++ [msg]).map (lineOf page)
      -- the line added is the one for the message delivered
      rw [List.map_append, List.map_singleton, lineOf, hformat, h.received w]
    · rw [setView_of_ne f _ hw]
      exact h.received w

end Flow

end OsLab.Twitter
