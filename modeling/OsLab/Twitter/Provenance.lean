import OsLab.Twitter.Deliveries
import OsLab.Twitter.Network

/-!
# OsLab.Twitter.Provenance — where what a window shows comes from

Any number of processes in any order of steps: constructors that race for a mailbox, senders that
overwrite each other, processes that end in the middle of anything. What holds of all of it:

* **`Carries`**: a message for a mailbox holds the text of a tweet handed over for that mailbox by
  a process with another one. Only its sender can be lost: `EmptyMailbox` writes `NO_DATA` over it.
* **`Peer.Sound`**: a process and what is on its way to it; **`Network.Sound`**: all of them.
* **`sound_step`**: no step faults, and all of it stays so.
* **`shown_was_sent`** is the headline: what a window shows as received was handed over to be sent
  to it.
-/

namespace OsLab.Twitter

open Fallible DoublyLinked

variable {ι : Type} {page : CodePage}

/-! ## Texts

`FormatMsgOut` converts at most 95 characters of a text and ends the buffer with a `NUL`;
`FormatMsgIn` puts the sender in front and converts back. Between the two only the sender can
change, so what a reader shows is a function of the text that was handed over and of the sender it
finds. -/

/-- Whatever is sent, the buffer starts with its first 95 characters up to a `NUL`. -/
theorem wideString_formatMsgOut (page : CodePage) (this : MailBoxMessage) (fromId msgId : Int32)
    (Msg : List UInt8) :
    wideString (this.formatMsgOut page.wideText fromId Msg msgId).data.pData.buffer
      = .ok (page.wideText ((Msg.takeWhile (· ≠ 0)).take (bufferLength - 1))) := by
  generalize hshown : Msg.takeWhile (· ≠ 0) = shown
  have hnul : 0 ∉ shown := fun hmem => by
    rw [← hshown] at hmem
    simpa using List.mem_takeWhile_imp hmem
  have hle : shown.length ≤ Msg.length := by
    rw [← hshown]
    exact (List.takeWhile_prefix _).length_le
  have hwide : (page.wideText (shown.take (bufferLength - 1))).length
      = min (bufferLength - 1) shown.length := by
    rw [CodePage.wideText, List.length_map, List.length_take]
  generalize hsize : (if Msg.length ≥ bufferLength then bufferLength - 1 else Msg.length) = size
  have hsize_le : min (bufferLength - 1) shown.length ≤ size := by
    rw [← hsize]
    split <;> omega
  -- the terminator stands in the place kept for it, or comes along with a shorter text
  have hend : min (bufferLength - 1) shown.length = size
      ∨ (min (bufferLength - 1) shown.length = shown.length ∧ shown.length < size) := by
    rw [← hsize]
    split <;> omega
  have hlt : min (bufferLength - 1) shown.length < bufferLength :=
    Nat.lt_of_le_of_lt (Nat.min_le_left _ _) (by decide)
  simp only [MailBoxMessage.formatMsgOut, multiByteToWideChar, hsize, hshown]
  refine wideString_of_prefix (hwide.trans_lt hlt) (fun i hi => ?_) ?_ ?_
  · rw [hwide] at hi
    have hi' : i < (page.wideText shown).length := by
      rw [CodePage.wideText, List.length_map]
      omega
    rw [Vector.getElem_setIfInBounds_ne _ (by omega), Vector.getElem_ofFn,
      if_pos (Nat.lt_of_lt_of_le hi hsize_le), List.getD_append _ _ _ _ hi',
      List.getD_eq_getElem _ _ hi']
    simp [CodePage.wideText]
  · have hcell (k : Nat) (hk : k < bufferLength) (hcases : k = size ∨ k = shown.length ∧ k < size) :
        ((Vector.ofFn fun i : Fin bufferLength =>
          if i.val < size then (page.wideText shown ++ [0]).getD i this.data.pData.buffer[i]
          else this.data.pData.buffer[i]).setIfInBounds size 0)[k] = 0 := by
      rw [Vector.getElem_setIfInBounds]
      rcases hcases with rfl | ⟨rfl, hroom⟩
      · rw [if_pos rfl]
      · rw [if_neg (Nat.ne_of_gt hroom), Vector.getElem_ofFn, if_pos hroom]
        simp [CodePage.wideText]
    refine hcell _ _ ?_
    rw [hwide]
    omega
  · rw [page.zero_mem_wideText_iff]
    exact fun hmem => hnul (List.mem_of_mem_take hmem)

/-- What a window shows of a tweet: the header and the text as far as it goes. -/
def shownText (page : CodePage) (id fromId : Int32) (text : List UInt8) : List UInt16 :=
  page.wideText (header id fromId ++ (text.takeWhile (· ≠ 0)).take (bufferLength - 1))

/-- What a reader makes of a message with that text, whatever has become of its sender. -/
theorem formatMsgIn_of_formatMsgOut {msg : MailBoxFormat} {this : MailBoxMessage} {fromId id : Int32}
    {text : List UInt8} (h : msg.pData = (this.formatMsgOut page.wideText fromId text id).data.pData) :
    ∃ data, (MailBoxMessage.mk msg).formatMsgIn page = .ok data
      ∧ page.wideText data = shownText page msg.pData.id msg.FROM text := by
  have hbuffer := wideString_formatMsgOut page this fromId id text
  rw [← h] at hbuffer
  have hnul : 0 ∉ (text.takeWhile (· ≠ 0)).take (bufferLength - 1) := fun hmem => by
    simpa using List.mem_takeWhile_imp (List.mem_of_mem_take hmem)
  have hroom : ((text.takeWhile (· ≠ 0)).take (bufferLength - 1)).length < bufferLength :=
    Nat.lt_of_le_of_lt (List.length_take_le _ _) (by decide)
  exact ⟨_, @formatMsgIn_eq page ⟨msg⟩ _ hbuffer hnul hroom, rfl⟩

/-! ## Messages on their way

Three places hold a message between the two ends: the mailbox in shared memory, the buffer of the
thread that copies it out, and `pMsgList`. In all three the same is known of it, that some process
handed over its text for this mailbox. The tweets handed over only become more, so what is known
stays true when other processes go on. -/

/-- `text` has been handed over, in the process with mailbox `fromBox`, to be sent to `toBox`. -/
def Handed (tweets : List (Tweet ι)) (fromBox : Fin maxBox) (toBox : Int) (text : List UInt8) : Prop :=
  ∃ tweet ∈ tweets, tweet.fromBox = fromBox ∧ tweet.toBox = toBox ∧ tweet.text = text

/-- The message is one that `WriteTweets` has formatted for mailbox `i`, but for its sender, which
`EmptyMailbox` may have overwritten. -/
def Carries (page : CodePage) (tweets : List (Tweet ι)) (i : Fin maxBox) (msg : MailBoxFormat) : Prop :=
  ∃ fromBox text, Handed tweets fromBox (Int.ofNat i) text ∧ fromBox ≠ i
    ∧ (∃ (this : MailBoxMessage) (id : Int32), msg.pData
        = (this.formatMsgOut page.wideText (MailslotId.toInt32 (some fromBox)) text id).data.pData)
    ∧ (msg.FROM = MailslotId.toInt32 (some fromBox) ∨ msg.FROM = noData)

/-- The text in a window of the process with mailbox `i` comes from a tweet. -/
def Shown (page : CodePage) (tweets : List (Tweet ι)) (i : Fin maxBox) (data : List UInt16) : Prop :=
  ∃ fromBox text id fromId, Handed tweets fromBox (Int.ofNat i) text ∧ fromBox ≠ i
    ∧ (fromId = MailslotId.toInt32 (some fromBox) ∨ fromId = noData)
    ∧ data = shownText page id fromId text

section Growing

variable {tweets tweets' : List (Tweet ι)} {i fromBox : Fin maxBox} {toBox : Int}
  {text : List UInt8} {msg msg' : MailBoxFormat}

/-- A tweet that has been handed over stays so. -/
theorem Handed.mono (h : Handed tweets fromBox toBox text) (hsub : tweets ⊆ tweets') :
    Handed tweets' fromBox toBox text := by
  obtain ⟨tweet, htweet, hrest⟩ := h
  exact ⟨tweet, hsub htweet, hrest⟩

/-- A message stays one of those on their way when more is handed over. -/
theorem Carries.mono (h : Carries page tweets i msg) (hsub : tweets ⊆ tweets') :
    Carries page tweets' i msg := by
  obtain ⟨fromBox, text, hhanded, hrest⟩ := h
  exact ⟨fromBox, text, hhanded.mono hsub, hrest⟩

/-- What a window shows stays accounted for when more is handed over. -/
theorem Shown.mono {data : List UInt16} (h : Shown page tweets i data) (hsub : tweets ⊆ tweets') :
    Shown page tweets' i data := by
  obtain ⟨fromBox, text, id, fromId, hhanded, hrest⟩ := h
  exact ⟨fromBox, text, id, fromId, hhanded.mono hsub, hrest⟩

/-- `EmptyMailbox` overwrites the sender and nothing else. -/
theorem Carries.emptied (h : Carries page tweets i msg) (hdata : msg'.pData = msg.pData)
    (hFROM : msg'.FROM = noData) : Carries page tweets i msg' := by
  obtain ⟨fromBox, text, hhanded, hne, ⟨this, id, hpData⟩, -⟩ := h
  exact ⟨fromBox, text, hhanded, hne, ⟨this, id, hdata.trans hpData⟩, Or.inr hFROM⟩

/-- What a reader makes of a message. -/
theorem Carries.formatMsgIn (h : Carries page tweets i msg) :
    ∃ data, (MailBoxMessage.mk msg).formatMsgIn page = .ok data
      ∧ Shown page tweets i (page.wideText data) := by
  obtain ⟨fromBox, text, hhanded, hne, ⟨this, id, hpData⟩, hFROM⟩ := h
  obtain ⟨data, hformat, hdata⟩ := formatMsgIn_of_formatMsgOut hpData
  exact ⟨data, hformat, fromBox, text, msg.pData.id, msg.FROM, hhanded, hne, hFROM, hdata⟩

end Growing

/-! ## A process

What is true of one process, whatever the others do. It has a connection for every mailbox it has
opened and for no other, so that a handle and a view come together; its thread has only messages for
its own mailbox before it; and its queue and the tweet it is sending have been handed over.
`Peer.Sound` collects these for every place the main thread can be at. -/

/-- The connections are views of mailboxes that have been opened, one for each. -/
def Connects (l : ConnectionList) (opened : Fin maxBox → Prop) : Prop :=
  ∃ xs : List Connection, Denotes l xs ∧ (xs.map Connection.hIndex).Nodup
    ∧ ∀ connection ∈ xs, ∃ i : Fin maxBox, connection = ⟨i, some i⟩ ∧ opened i

namespace Connects

variable {l : ConnectionList} {opened opened' : Fin maxBox → Prop}

/-- The same connections, for mailboxes that are open as well. The set of them is said by a
predicate, since it moves with the program point: a mailbox is opened by `CreateFileMapping` and
connected a statement later. -/
theorem mono (h : Connects l opened) (himp : ∀ i, opened i → opened' i) : Connects l opened' := by
  obtain ⟨xs, hden, hnodup, hviews⟩ := h
  refine ⟨xs, hden, hnodup, fun connection hmem => ?_⟩
  obtain ⟨i, hi, hopened⟩ := hviews connection hmem
  exact ⟨i, hi, himp i hopened⟩

/-- A mailbox that has not been opened yet. -/
theorem add (h : Connects l opened) {i : Fin maxBox} (hnew : ¬ opened i) :
    ∃ l', l.add i (some i) = .ok l' ∧ Connects l' fun j => j = i ∨ opened j := by
  obtain ⟨xs, hden, hnodup, hviews⟩ := h
  obtain ⟨l', hadd, hden'⟩ := pushNode_denotes hden (⟨i, some i⟩ : Connection)
  refine ⟨l', hadd, _, hden', ?_, fun connection hmem => ?_⟩
  · rw [List.map_cons, List.nodup_cons]
    refine ⟨fun hmem => hnew ?_, hnodup⟩
    obtain ⟨connection, hconnection, hindex⟩ := List.mem_map.mp hmem
    obtain ⟨j, rfl, hopened⟩ := hviews connection hconnection
    obtain rfl : j = i := Fin.ext hindex
    exact hopened
  · rcases List.mem_cons.mp hmem with rfl | hold
    · exact ⟨i, rfl, Or.inl rfl⟩
    · obtain ⟨j, hj, hopened⟩ := hviews connection hold
      exact ⟨j, hj, Or.inr hopened⟩

/-- What is found for a handle is the view of its mailbox. -/
theorem peekBuffer (h : Connects l opened) (i : Fin maxBox) :
    ∃ pBuf, l.peekBuffer (maxBox + 1) i = .ok pBuf ∧ ∀ address, pBuf = some address → address = i := by
  obtain ⟨xs, hden, hnodup, hviews⟩ := h
  have hlength : xs.length ≤ maxBox := by
    have hsub : xs.map Connection.hIndex ⊆ List.range maxBox := by
      intro handle hmem
      obtain ⟨connection, hconnection, rfl⟩ := List.mem_map.mp hmem
      obtain ⟨j, rfl, -⟩ := hviews connection hconnection
      exact List.mem_range.mpr j.isLt
    have hle := (hnodup.subperm hsub).length_le
    rwa [List.length_map, List.length_range] at hle
  refine ⟨_, ConnectionList.peekBuffer_denotes hden i (Nat.lt_succ_of_le hlength), ?_⟩
  intro address haddress
  obtain ⟨connection, hfind, hpBuf⟩ := Option.bind_eq_some_iff.mp haddress
  obtain ⟨j, rfl, -⟩ := hviews connection (List.mem_of_find?_eq_some hfind)
  have hindex : (j : Nat) = i := by simpa using List.find?_some hfind
  rw [← hindex]
  exact (Option.some.inj hpBuf).symm

end Connects

/-- What the thread that watches mailbox `i` may have before it: with `cell` in the mailbox and
`temp` in its buffer. -/
def Watches (page : CodePage) (tweets : List (Tweet ι)) (i : Fin maxBox) (cell temp : MailBoxFormat) :
    MonitorPc → Prop
  | .createMapping | .emptyFirst => True
  | .checkFrom | .emptyMailbox => cell.FROM = noData ∨ Carries page tweets i cell
  | .copyCell => Carries page tweets i cell
  | .put => (cell.FROM = noData ∨ Carries page tweets i cell) ∧ Carries page tweets i temp

/-- The mailboxes from which on the constructor has not opened any. -/
def StartPc.position : StartPc → Nat
  | .openBox i => i
  | .createBox i => i
  | .running => maxBox

/-- The window has been constructed. -/
def MainPc.Opened (main : MainPc) : Prop :=
  main = .messageLoop ∨ ∃ box tmp rounds, main = .sending box tmp rounds

/-- A process, the text on its way to it and what it has to send. -/
structure Peer.Sound (page : CodePage) (tweets : List (Tweet ι)) (cell : Fin maxBox → MailBoxFormat)
    (proc : Process) (p : Peer) : Prop where
  connections : Connects p.pConnectionList fun i =>
    proc.hMailBox i = true ∧ p.main ≠ .emptyFirst i
  inbox : ∃ emptied, p.inbox.Lags emptied
  received : ∀ msg ∈ p.inbox.sent, ∃ i, proc.thisMailslot = some i ∧ Carries page tweets i msg
  shown : ∀ data, .received data ∈ p.window.history →
    ∃ i, proc.thisMailslot = some i ∧ Shown page tweets i data
  watches : ∀ i, proc.thisMailslot = some i →
    Watches page tweets i (cell i) p.pTempReadBuffer.data p.thread
  owns : ∀ i, proc.thisMailslot = some i → proc.hMailBox i = true
  constructing : p.main = .constructing → proc.thisMailslot = none
    ∧ p.thread = .createMapping
    ∧ ∀ j : Fin maxBox, proc.pc.position ≤ j → proc.hMailBox j = false
  emptyFirst : ∀ i, p.main = .emptyFirst i → proc.thisMailslot = some i ∧ p.thread = .emptyFirst
  unopened : ¬ p.main.Opened → p.window = .initializeComponent ∧ p.inbox.delivered = []
  window : p.main.Opened → p.window.Sound proc.thisMailslot
  queued : ∀ i, proc.thisMailslot = some i → ∀ tweet ∈ p.window.queue,
    Handed tweets i tweet.1 (page.narrowText tweet.2)
  sending : ∀ box tmp rounds, p.main = .sending box tmp rounds → p.window.mailbox = true
    ∧ ∃ i, proc.thisMailslot = some i ∧ IsOther (some i) box ∧ Handed tweets i box tmp

section Steps

variable {tweets tweets' : List (Tweet ι)} {cell cell' : Fin maxBox → MailBoxFormat}
  {proc proc' : Process} {p p' : Peer} {i : Fin maxBox} {c c' temp : MailBoxFormat} {pc : MonitorPc}

/-- What may happen to a mailbox while it is watched. -/
def Changes (page : CodePage) (tweets : List (Tweet ι)) (i : Fin maxBox) (c c' : MailBoxFormat) :
    Prop :=
  c' = c ∨ Carries page tweets i c' ∨ (c'.pData = c.pData ∧ c'.FROM = noData)

/-- A mailbox that holds a message for its owner holds one after any change that others make. -/
theorem Changes.carries (h : Changes page tweets i c c') (hc : Carries page tweets i c) :
    Carries page tweets i c' := by
  rcases h with rfl | hcarries | ⟨hdata, hFROM⟩
  · exact hc
  · exact hcarries
  · exact hc.emptied hdata hFROM

theorem Changes.empty_or (h : Changes page tweets i c c')
    (hc : c.FROM = noData ∨ Carries page tweets i c) :
    c'.FROM = noData ∨ Carries page tweets i c' := by
  rcases h with rfl | hcarries | ⟨-, hFROM⟩
  · exact hc
  · exact Or.inr hcarries
  · exact Or.inl hFROM

/-- What the thread has before it stays right when the mailbox changes under it: between its test of
`FROM` and its copy another process can write, and what it copies then is that other message. -/
theorem Watches.change (h : Watches page tweets i c temp pc) (hsub : tweets ⊆ tweets')
    (hchange : Changes page tweets' i c c') : Watches page tweets' i c' temp pc := by
  cases pc with
  | createMapping | emptyFirst => trivial
  | checkFrom | emptyMailbox => exact hchange.empty_or (h.imp_right (·.mono hsub))
  | copyCell => exact hchange.carries (Carries.mono h hsub)
  | put => exact ⟨hchange.empty_or (h.1.imp_right (·.mono hsub)), h.2.mono hsub⟩

/-- Other processes write to the mailboxes and hand over tweets. -/
theorem Peer.Sound.change (h : p.Sound page tweets cell proc) (hsub : tweets ⊆ tweets')
    (hcell : ∀ i, proc.thisMailslot = some i → Changes page tweets' i (cell i) (cell' i)) :
    p.Sound page tweets' cell' proc :=
  { h with
    received := fun msg hmsg => by
      obtain ⟨i, hi, hcarries⟩ := h.received msg hmsg
      exact ⟨i, hi, hcarries.mono hsub⟩
    shown := fun data hdata => by
      obtain ⟨i, hi, hshown⟩ := h.shown data hdata
      exact ⟨i, hi, hshown.mono hsub⟩
    watches := fun i hi => (h.watches i hi).change hsub (hcell i hi)
    queued := fun i hi tweet htweet => (h.queued i hi tweet htweet).mono hsub
    sending := fun box tmp rounds hmain => by
      obtain ⟨hmailbox, i, hi, hother, hhanded⟩ := h.sending box tmp rounds hmain
      exact ⟨hmailbox, i, hi, hother, hhanded.mono hsub⟩ }

/-- The constructor has found mailbox `i`, which is now the process's own. -/
theorem Peer.Sound.claim (h : p.Sound page tweets cell proc) (hmain : p.main = .constructing)
    (hclosed : proc.hMailBox i = false) {main : MainPc} {thread : MonitorPc}
    (hmain' : main = .emptyFirst i ∨ main = .broadcast 0)
    (hthread' : thread = .createMapping ∨ thread = .emptyFirst)
    (hempty' : main = .emptyFirst i → thread = .emptyFirst) :
    Peer.Sound page tweets cell' { proc with
      hMailBox := Function.update proc.hMailBox i true
      thisMailslot := some i
      pc := .running } { p with main, thread } := by
  obtain ⟨hnone, -, -⟩ := h.constructing hmain
  have hunopened : ¬ p.main.Opened := by simp [MainPc.Opened, hmain]
  obtain ⟨hwindow, -⟩ := h.unopened hunopened
  -- without a mailbox nothing has been received
  have hvacuous {P : Fin maxBox → Prop} (hex : ∃ j, proc.thisMailslot = some j ∧ P j) : False := by
    obtain ⟨j, hj, -⟩ := hex
    rw [hnone] at hj
    cases hj
  exact {
    connections := h.connections.mono fun j hj => by
      have hji : j ≠ i := fun heq => Bool.false_ne_true (hclosed.symm.trans (heq ▸ hj.1))
      refine ⟨Processes.handles_update _ _ hj.1, ?_⟩
      rcases hmain' with rfl | rfl
      · exact fun heq => hji (MainPc.emptyFirst.inj heq).symm
      · simp
    inbox := h.inbox
    received := fun msg hmsg => (hvacuous (h.received msg hmsg)).elim
    shown := fun data hdata => (hvacuous (h.shown data hdata)).elim
    watches := fun j _ => by rcases hthread' with rfl | rfl <;> trivial
    owns := fun j hj => by
      obtain rfl := Option.some.inj hj
      exact Function.update_self _ _ _
    constructing := fun heq => by rcases hmain' with rfl | rfl <;> cases heq
    emptyFirst := fun j heq => by
      rcases hmain' with rfl | rfl
      · exact ⟨congrArg some (MainPc.emptyFirst.inj heq), hempty' rfl⟩
      · cases heq
    unopened := fun _ => h.unopened hunopened
    window := fun heq => by rcases hmain' with rfl | rfl <;> simp [MainPc.Opened] at heq
    queued := fun j _ tweet htweet => by
      have hmem : tweet ∈ p.window.queue := htweet
      rw [hwindow] at hmem
      cases hmem
    sending := fun box tmp rounds heq => by rcases hmain' with rfl | rfl <;> cases heq }

/-- A handler of the window. -/
theorem Peer.Sound.handler (h : p.Sound page tweets cell proc) (hmain : p.main = .messageLoop)
    {w : Window} (hsound : w.Sound proc.thisMailslot)
    (hshown : ∀ data, .received data ∈ w.history →
      ∃ i, proc.thisMailslot = some i ∧ Shown page tweets i data)
    (hqueued : ∀ i, proc.thisMailslot = some i → ∀ tweet ∈ w.queue,
      Handed tweets i tweet.1 (page.narrowText tweet.2)) :
    Peer.Sound page tweets cell proc { p with window := w } :=
  { h with
    shown := hshown
    -- the handler runs in the message loop, so nothing is said of the constructor or of `RunClient`
    constructing := fun hconstructing => by
      have hnot : p.main = .constructing := hconstructing
      rw [hmain] at hnot
      cases hnot
    unopened := fun hne => absurd (Or.inl hmain) hne
    window := fun _ => hsound
    queued := hqueued
    sending := fun box tmp rounds hsending => by
      have hnot : p.main = .sending box tmp rounds := hsending
      rw [hmain] at hnot
      cases hnot }

end Steps

/-! ## All processes

A step changes the state of one process, and perhaps the mailboxes and the tweets. Each lemma below
says that a change of one of these kinds keeps every process sound; the steps of the program are
then put together from them. -/

/-- Every process that is there is sound. -/
def Network.Sound (page : CodePage) (s : Network ι) : Prop :=
  ∀ who ∈ s.processes.live, (s.peer who).Sound page s.tweets s.cell (s.processes.proc who)

namespace Network

variable {s s' : Network ι} {who : ι}

/-- A step of one process: the others keep their state, and the mailboxes change only in the ways
they are prepared for. -/
theorem Sound.change (h : s.Sound page)
    (hlive : ∀ w ∈ s'.processes.live, w ≠ who → w ∈ s.processes.live)
    (hothers : ∀ w, w ≠ who → s'.peer w = s.peer w ∧ s'.processes.proc w = s.processes.proc w)
    (hsub : s.tweets ⊆ s'.tweets)
    (hcell : ∀ i, Changes page s'.tweets i (s.cell i) (s'.cell i) ∨ ¬ s.processes.NameExists i)
    (hwho : who ∈ s'.processes.live →
      (s'.peer who).Sound page s'.tweets s'.cell (s'.processes.proc who)) :
    s'.Sound page := by
  intro w hw
  by_cases heq : w = who
  · subst heq
    exact hwho hw
  · obtain ⟨hpeer, hproc⟩ := hothers w heq
    have hold := h w (hlive w hw heq)
    rw [hpeer, hproc]
    refine hold.change hsub fun i hi => (hcell i).resolve_right fun hnew => hnew ?_
    -- whoever watches a mailbox has a handle to it
    exact ⟨w, hlive w hw heq, hold.owns i hi⟩

/-- A step that changes the mailboxes and the tweets only. -/
theorem Sound.world (h : s.Sound page) {cell : Fin maxBox → MailBoxFormat} {tweets : List (Tweet ι)}
    (written : Fin maxBox → List (Written ι)) (hsub : s.tweets ⊆ tweets)
    (hcell : ∀ i, Changes page tweets i (s.cell i) (cell i)) :
    Sound page { s with cell, tweets, written } :=
  fun w hw => (h w hw).change hsub fun i _ => hcell i

/-- A message written over one mailbox. -/
theorem changes_update {tweets : List (Tweet ι)} {cell : Fin maxBox → MailBoxFormat}
    {i : Fin maxBox} {c : MailBoxFormat} (h : Changes page tweets i (cell i) c) (j : Fin maxBox) :
    Changes page tweets j (cell j) (Function.update cell i c j) := by
  by_cases hj : j = i
  · subst hj
    rw [Function.update_self]
    exact h
  · rw [Function.update_of_ne hj]
    exact Or.inl rfl

/-- A result that another part of the program delivers is delivered here. -/
theorem orFault_ok {φ α : Type} (fault : φ → NetworkFault) {x : Except φ α} {a : α} (h : x = .ok a) :
    orFault fault x = .ok a := by
  rw [h]
  rfl

/-- `addConnection` for a mailbox that has just been opened. -/
theorem addConnection_ok {p : Peer} {i : Fin maxBox} {opened : Fin maxBox → Prop}
    (opened' : Fin maxBox → Prop) (h : Connects p.pConnectionList opened) (hnew : ¬ opened i)
    (hi : opened' i)
    (himp : ∀ j, opened j → opened' j) (maps : Bool) :
    ∃ l, addConnection p i maps = .ok { p with pConnectionList := l } ∧ Connects l opened' := by
  cases maps with
  | false => exact ⟨p.pConnectionList, rfl, h.mono himp⟩
  | true =>
    obtain ⟨l, hadd, hl⟩ := h.add hnew
    refine ⟨l, ?_, hl.mono fun j hj => ?_⟩
    · rw [addConnection, if_pos rfl, orFault_ok _ hadd, ok_bind]
    · rcases hj with rfl | hopened
      · exact hi
      · exact himp j hopened

section Step

variable [DecidableEq ι]

theorem setPeer_self (p : Peer) : (s.setPeer who p).peer who = p := Function.update_self _ _ _

theorem setPeer_of_ne {w : ι} (p : Peer) (h : w ≠ who) : (s.setPeer who p).peer w = s.peer w :=
  Function.update_of_ne h _ _

/-- A step that changes one process only. -/
theorem Sound.setPeer (h : s.Sound page) {p : Peer}
    (hp : who ∈ s.processes.live → p.Sound page s.tweets s.cell (s.processes.proc who)) :
    (s.setPeer who p).Sound page := by
  refine h.change (fun _ hw _ => hw) (fun w hw => ⟨setPeer_of_ne p hw, rfl⟩)
    (List.Subset.refl _) (fun _ => Or.inl (Or.inl rfl)) fun hwho => ?_
  rw [setPeer_self]
  exact hp hwho

/-- A step that changes one process and its handles only. -/
theorem Sound.setProc (h : s.Sound page) {p : Peer} {proc : Process}
    (hp : p.Sound page s.tweets s.cell proc) :
    Sound page { s.setPeer who p with processes := s.processes.setProc who proc } := by
  refine h.change (fun _ hw _ => hw)
    (fun w hw => ⟨setPeer_of_ne p hw, Function.update_of_ne hw _ _⟩)
    (List.Subset.refl _) (fun _ => Or.inl (Or.inl rfl)) fun _ => ?_
  show ((s.setPeer who p).peer who).Sound page s.tweets s.cell
    (Function.update s.processes.proc who proc who)
  rw [setPeer_self, Function.update_self]
  exact hp

/-! ### Sending

A message is written into a mailbox by the loop of `RunClient`, and by `SendBroadcastMsg` in the
constructor. Both come to `WriteTweets`, which looks up the view of the mailbox among the
connections. -/

omit [DecidableEq ι] in
/-- What `WriteTweets` formats for another mailbox. -/
theorem carries_formatMsgOut {tweets : List (Tweet ι)} {fromBox i : Fin maxBox} {Msg : List UInt8}
    (this : MailBoxMessage) (msgId : Int32) (hother : IsOther (some fromBox) (Int.ofNat i))
    (hhanded : Handed tweets fromBox (Int.ofNat i) Msg) : Carries page tweets i
      (this.formatMsgOut page.wideText (MailslotId.toInt32 (some fromBox)) Msg msgId).data := by
  obtain ⟨j, hj, hne⟩ := hother
  obtain rfl : i = j := Fin.ext (Int.ofNat.inj hj)
  exact ⟨fromBox, Msg, hhanded, fun heq => hne (congrArg some heq), ⟨this, msgId, rfl⟩, Or.inl rfl⟩

/-- **`WriteTweets`** of a text that has been handed over for another mailbox does not fault: where
there is a handle there is a connection, and the view it finds is that mailbox. Afterwards the
mailbox holds the message. -/
theorem Sound.writeTweets (h : s.Sound page) (hlive : who ∈ s.processes.live)
    {fromBox : Fin maxBox} {toBox : Int} {Msg : List UInt8}
    (hid : (s.processes.proc who).thisMailslot = some fromBox) (hother : IsOther (some fromBox) toBox)
    (hhanded : Handed s.tweets fromBox toBox Msg) :
    ∃ s', s.writeTweets page who toBox Msg = .ok s' ∧ s'.Sound page ∧ s'.tweets = s.tweets := by
  obtain ⟨i, rfl, hne⟩ := id hother
  have hpeer := h who hlive
  have hrange : 0 ≤ Int.ofNat i ∧ (Int.ofNat i).toNat < maxBox := ⟨Int.natCast_nonneg _, i.isLt⟩
  generalize hmessage : (s.peer who).pLocalWriteBuffer.formatMsgOut page.wideText
    (MailslotId.toInt32 (some fromBox)) Msg (s.peer who).msgId = message
  have hcarries : Carries page s.tweets i message.data := by
    rw [← hmessage]
    exact carries_formatMsgOut _ _ hother hhanded
  -- the buffer and the number of the message are not part of the invariant
  have hs₁ : (s.setPeer who { s.peer who with
      pLocalWriteBuffer := message, msgId := (s.peer who).msgId + 1 }).Sound page :=
    h.setPeer fun _ => { hpeer with }
  unfold Network.writeTweets
  simp only [hid, hmessage, dif_pos hrange]
  split
  · obtain ⟨pBuf, hpeek, haddress⟩ := hpeer.connections.peekBuffer i
    have hpeek' : (s.peer who).pConnectionList.peekBuffer (maxBox + 1) (Int.ofNat i).toNat
        = .ok pBuf := hpeek
    rw [orFault_ok _ hpeek', ok_bind]
    cases pBuf with
    | none => exact ⟨_, rfl, hs₁, rfl⟩
    | some address =>
      obtain rfl := haddress address rfl
      dsimp only
      rw [dif_pos i.isLt]
      exact ⟨_, rfl, hs₁.world _ (List.Subset.refl _)
        (changes_update (Or.inr (Or.inl hcarries))), rfl⟩
  · exact ⟨_, rfl, hs₁, rfl⟩

/-! ### Receiving

`ReadTweets` takes a message off the list, formats it, and opens the mailbox of its sender if that
is the first message from there. What the list delivers is a message that was put into it, be it for
the second time. -/

/-- `ReadTweets` opens the mailbox of the sender. -/
theorem readTweets_processes {sender : Fin maxBox}
    (hclosed : (s.processes.proc who).hMailBox sender = false)
    (hexists : s.processes.NameExists sender) :
    s.processes.readTweets who sender = s.processes.setProc who { s.processes.proc who with
      hMailBox := Function.update (s.processes.proc who).hMailBox sender true } := by
  unfold Processes.readTweets
  simp only [hclosed, Bool.false_eq_true, if_false, if_pos hexists]

/-- A handler of the window that has a new connection to `sender`. -/
theorem Sound.connect (h : s.Sound page) {p : Peer}
    (hp : p.Sound page s.tweets s.cell (s.processes.proc who)) (hmain : p.main = .messageLoop)
    {sender : Fin maxBox} (hclosed : (s.processes.proc who).hMailBox sender = false)
    (hexists : s.processes.NameExists sender) (maps : Bool) :
    ∃ l, addConnection p sender maps = .ok { p with pConnectionList := l }
      ∧ Sound page { s.setPeer who { p with pConnectionList := l } with
          processes := s.processes.readTweets who sender } := by
  -- the mailboxes that were open stay open, and `sender` is one more
  have hkept (i : Fin maxBox) (hi : (s.processes.proc who).hMailBox i = true) :
      Function.update (s.processes.proc who).hMailBox sender true i = true :=
    Processes.handles_update _ _ hi
  have hself : Function.update (s.processes.proc who).hMailBox sender true sender = true
      ∧ p.main ≠ .emptyFirst sender := by
    rw [Function.update_self, hmain]
    exact ⟨rfl, by simp⟩
  have hnew : ¬ ((s.processes.proc who).hMailBox sender = true ∧ p.main ≠ .emptyFirst sender) :=
    fun hopened => Bool.false_ne_true (hclosed.symm.trans hopened.1)
  obtain ⟨l, hadd, hl⟩ := addConnection_ok
    (fun i => Function.update (s.processes.proc who).hMailBox sender true i = true
      ∧ p.main ≠ .emptyFirst i) hp.connections hnew hself (fun i hi => ⟨hkept i hi.1, hi.2⟩) maps
  refine ⟨l, hadd, ?_⟩
  rw [readTweets_processes hclosed hexists]
  -- only the connections and the handles have changed
  exact h.setProc { hp with
    connections := hl
    owns := fun i hi => hkept i (hp.owns i hi)
    constructing := fun hconstructing => by
      rw [hmain] at hconstructing
      cases hconstructing }

/-- What `ReadTweets` leaves alone. -/
structure ReadsOnly (s s' : Network ι) (who : ι) : Prop where
  live : s'.processes.live = s.processes.live
  thisMailslot : (s'.processes.proc who).thisMailslot = (s.processes.proc who).thisMailslot
  main : (s'.peer who).main = (s.peer who).main
  window : (s'.peer who).window = (s.peer who).window
  tweets : s'.tweets = s.tweets

/-- **`ReadTweets`** does not fault, and the string it returns is empty or the text of a message
that was handed over for this mailbox. It changes neither the window nor what the main thread does
next. -/
theorem Sound.readTweets (h : s.Sound page) (hlive : who ∈ s.processes.live)
    (hmain : (s.peer who).main = .messageLoop) (maps : Bool) :
    ∃ data s', s.readTweets page who maps = .ok (data, s') ∧ s'.Sound page ∧ s.ReadsOnly s' who
      ∧ (data.length > 0 → ∃ i, (s.processes.proc who).thisMailslot = some i
        ∧ Shown page s.tweets i (page.wideText data)) := by
  have hpeer := h who hlive
  have hsame : s.ReadsOnly s who := ⟨rfl, rfl, rfl, rfl, rfl⟩
  obtain ⟨emptied, hlags⟩ := hpeer.inbox
  unfold Network.readTweets
  dsimp only
  by_cases hcount : (s.peer who).inbox.pMsgList.getCount > 0
  · rw [if_pos hcount]
    obtain ⟨msg, q, hread, hlags'⟩ := hlags.read (hlags.getCount_pos_iff.mp hcount)
      (s.peer who).pLocalReadBuffer.data
    rw [orFault_ok _ hread, ok_bind]
    dsimp only
    rw [if_pos rfl]
    -- what is delivered has been put, whether or not `Get` left it in the list
    have hput : msg ∈ (s.peer who).inbox.sent := by
      have hmem : msg ∈ (s.peer who).inbox.delivered ++ [msg] :=
        List.mem_append_right _ (List.mem_singleton_self msg)
      have hdelivered := hlags'.delivered
      dsimp only at hdelivered
      rw [hdelivered] at hmem
      exact lagged_subset hmem
    obtain ⟨i, hi, hcarries⟩ := hpeer.received msg hput
    obtain ⟨data, hformat, hshown⟩ := hcarries.formatMsgIn
    rw [orFault_ok _ hformat, ok_bind]
    generalize hp : ({ s.peer who with
      pLocalReadBuffer := ⟨msg⟩
      inbox := { (s.peer who).inbox with
        pMsgList := q, delivered := (s.peer who).inbox.delivered ++ [msg] } } : Peer) = p
    have hp' : p.Sound page s.tweets s.cell (s.processes.proc who) := by
      rw [← hp]
      exact { hpeer with
        inbox := ⟨_, hlags'⟩
        unopened := fun hne => absurd (Or.inl hmain) hne }
    have hpmain : p.main = .messageLoop := by
      rw [← hp]
      exact hmain
    have hpwindow : p.window = (s.peer who).window := by rw [← hp]
    have hunconnected : s.ReadsOnly (s.setPeer who p) who := by
      refine ⟨rfl, rfl, ?_, ?_, rfl⟩
      · rw [setPeer_self, hpmain, hmain]
      · rw [setPeer_self, hpwindow]
    have hshown' : data.length > 0 → ∃ i, (s.processes.proc who).thisMailslot = some i
        ∧ Shown page s.tweets i (page.wideText data) := fun _ => ⟨i, hi, hshown⟩
    -- a first message from a sender opens the mailbox of that sender
    cases hvalid : (MailBoxMessage.mk msg).validSender with
    | none => exact ⟨data, _, rfl, h.setPeer fun _ => hp', hunconnected, hshown'⟩
    | some sender =>
      dsimp only
      split
      · next hfirst =>
        obtain ⟨l, hadd, hsound⟩ := h.connect hp' hpmain hfirst.1 hfirst.2 maps
        rw [hadd, ok_bind]
        refine ⟨data, _, rfl, hsound, ⟨?_, ?_, ?_, ?_, rfl⟩, hshown'⟩
        · rw [readTweets_processes hfirst.1 hfirst.2]
          rfl
        · rw [readTweets_processes hfirst.1 hfirst.2]
          show (Function.update s.processes.proc who _ who).thisMailslot = _
          rw [Function.update_self]
        · show ((s.setPeer who { p with pConnectionList := l }).peer who).main = _
          rw [setPeer_self]
          exact hpmain.trans hmain.symm
        · show ((s.setPeer who { p with pConnectionList := l }).peer who).window = _
          rw [setPeer_self]
          exact hpwindow
      · exact ⟨data, _, rfl, h.setPeer fun _ => hp', hunconnected, hshown'⟩
  · rw [if_neg hcount]
    -- the list is empty
    exact ⟨[], s, rfl, h, hsame, fun hlt => absurd hlt (Nat.lt_irrefl 0)⟩

/-- `RunServer`. -/
theorem Sound.timer1 (h : s.Sound page) (hlive : who ∈ s.processes.live)
    (hmain : (s.peer who).main = .messageLoop) (maps : Bool) :
    ∃ s', s.timer1 page who maps = .ok s' ∧ s'.Sound page ∧ s'.tweets = s.tweets := by
  -- `ReadTweets`, if it is called
  obtain ⟨tmp, s₁, hread, hs₁, honly, hshown⟩ : ∃ tmp s₁,
      s.serverRead page who maps = .ok (tmp, s₁) ∧ s₁.Sound page ∧ s.ReadsOnly s₁ who
        ∧ (tmp.length > 0 → ∃ i, (s.processes.proc who).thisMailslot = some i
          ∧ Shown page s.tweets i (page.wideText tmp)) := by
    unfold serverRead
    split
    · exact h.readTweets hlive hmain maps
    · exact ⟨[], s, rfl, h, ⟨rfl, rfl, rfl, rfl, rfl⟩, fun hlt => absurd hlt (Nat.lt_irrefl 0)⟩
  have hlive₁ : who ∈ s₁.processes.live := honly.live ▸ hlive
  have hmain₁ : (s₁.peer who).main = .messageLoop := honly.main.trans hmain
  have hpeer₁ := hs₁ who hlive₁
  obtain ⟨w', hrun, hsound, hqueue, -, -, hhistory⟩ :=
    (hpeer₁.window (Or.inl hmain₁)).runServer page tmp
  refine ⟨s₁.setPeer who { s₁.peer who with window := w' }, ?_, hs₁.setPeer fun _ =>
    hpeer₁.handler hmain₁ hsound (fun data hdata => ?_) fun i hi tweet htweet =>
      hpeer₁.queued i hi tweet (hqueue ▸ htweet), honly.tweets⟩
  · rw [Network.timer1, hread, ok_bind]
    dsimp only
    rw [orFault_ok _ hrun, ok_bind]
  · rcases hhistory with hsame | ⟨hlength, hmore⟩
    · exact hpeer₁.shown data (hsame ▸ hdata)
    · rw [hmore] at hdata
      rcases List.mem_append.mp hdata with hold | hnew
      · exact hpeer₁.shown data hold
      · obtain rfl := Line.received.inj (List.mem_singleton.mp hnew)
        obtain ⟨i, hi, hi'⟩ := hshown hlength
        exact ⟨i, honly.thisMailslot.trans hi, honly.tweets ▸ hi'⟩

/-- `RunClient` up to its loop. -/
theorem Sound.timer2 (h : s.Sound page) (hlive : who ∈ s.processes.live)
    (hmain : (s.peer who).main = .messageLoop) :
    ∃ s', s.timer2 page who = .ok s' ∧ s'.Sound page ∧ s'.tweets = s.tweets := by
  have hpeer := h who hlive
  have hwindow := hpeer.window (Or.inl hmain)
  by_cases hidle : (s.peer who).window.clientRunningFlag ≠ .running
      ∨ (s.peer who).window.queue = []
  · refine ⟨s.setPeer who { s.peer who with window := (s.peer who).window }, ?_,
      h.setPeer fun _ => { hpeer with }, rfl⟩
    rw [Network.timer2, orFault_ok _ (hwindow.takeTweet_none page hidle), ok_bind]
  · -- there is a tweet in the queue; it becomes the one that is sent
    obtain ⟨hclient, hqueue⟩ := not_or.mp hidle
    have hclient := not_not.mp hclient
    obtain ⟨⟨box, data⟩, rest, hcons⟩ := List.exists_cons_of_ne_nil hqueue
    obtain ⟨w', htake, hsound, hrest, hflag, -, hhistory, hother⟩ :=
      hwindow.takeTweet_cons page hclient hcons
    obtain ⟨hmailbox, hsome⟩ := hsound.mailbox (hflag.trans (hwindow.client hclient))
    obtain ⟨i, hi⟩ := Option.ne_none_iff_exists'.mp hsome
    have hhanded := hpeer.queued i hi (box, data) (hcons ▸ List.mem_cons_self)
    refine ⟨s.setPeer who { s.peer who with
      window := w', main := .sending box (page.narrowText data) writeRounds }, ?_,
      h.setPeer fun _ => { hpeer with
      connections := hpeer.connections.mono fun j hj => ⟨hj.1, by simp⟩
      shown := fun text htext => ?_
      constructing := fun hmain' => by cases hmain'
      emptyFirst := fun j hmain' => by cases hmain'
      unopened := fun hne => absurd (Or.inr ⟨_, _, _, rfl⟩) hne
      window := fun _ => hsound
      queued := fun j hj tweet htweet => hpeer.queued j hj tweet ?_
      sending := fun box' tmp rounds hmain' => ?_ }, rfl⟩
    · rw [Network.timer2, orFault_ok _ htake, ok_bind]
    · dsimp only at htext
      rw [hhistory] at htext
      -- the line that is added to the window says what was sent, it is not one received
      rcases List.mem_append.mp htext with hold | hnew
      · exact hpeer.shown text hold
      · cases List.mem_singleton.mp hnew
    · rw [hcons, ← hrest]
      exact List.mem_cons_of_mem _ htweet
    · cases hmain'
      exact ⟨hmailbox, i, hi, hi ▸ hother, hhanded⟩

/-- A round of the loop of `RunClient`. -/
theorem Sound.writeRound (h : s.Sound page) (hlive : who ∈ s.processes.live) :
    ∃ s', s.writeRound page who = .ok s' ∧ s'.Sound page ∧ s'.tweets = s.tweets := by
  have hpeer := h who hlive
  unfold Network.writeRound
  cases hmain : (s.peer who).main with
  | constructing | emptyFirst i | broadcast index | messageLoop =>
    simp only [hmain]
    exact ⟨s, rfl, h, rfl⟩
  | sending box tmp rounds =>
    obtain ⟨hmailbox, i, hi, hother, hhanded⟩ := hpeer.sending box tmp rounds hmain
    -- `emptyFirst` is the one program point at which a mailbox is open and not yet connected
    have hopened (main : MainPc) (hne : ∀ j, main ≠ .emptyFirst j) :
        Connects (s.peer who).pConnectionList fun j =>
          (s.processes.proc who).hMailBox j = true ∧ main ≠ .emptyFirst j :=
      hpeer.connections.mono fun j hj => ⟨hj.1, hne j⟩
    cases rounds with
    | zero =>
      simp only [hmain]
      refine ⟨_, rfl, h.setPeer fun _ => { hpeer with
        connections := hopened _ fun _ => by simp
        constructing := fun hmain' => by cases hmain'
        emptyFirst := fun j hmain' => by cases hmain'
        unopened := fun hne => absurd (Or.inl rfl) hne
        window := fun _ => hpeer.window (Or.inr ⟨box, tmp, 0, hmain⟩)
        sending := fun _ _ _ hmain' => by cases hmain' }, rfl⟩
    | succ rounds =>
      simp only [hmain, hmailbox, if_true]
      -- the round is counted first, and then the text is written
      have hs₁ : (s.setPeer who { s.peer who with main := .sending box tmp rounds }).Sound page := by
        refine h.setPeer fun _ => { hpeer with
          connections := hopened _ fun _ => by simp
          constructing := fun hmain' => by cases hmain'
          emptyFirst := fun j hmain' => by cases hmain'
          unopened := fun hne => absurd (Or.inr ⟨_, _, _, rfl⟩) hne
          window := fun _ => hpeer.window (Or.inr ⟨box, tmp, rounds + 1, hmain⟩)
          sending := fun _ _ _ hmain' => ?_ }
        cases hmain'
        exact ⟨hmailbox, i, hi, hother, hhanded⟩
      exact hs₁.writeTweets hlive hi hother hhanded

/-! ### The thread and the handlers

The thread goes round between the test of `FROM` and `EmptyMailbox`, and each of its statements is a
step. `EmptyMailbox` writes over whatever is in the mailbox by then, which may be a message that
came in the meantime: that message is lost, or only its sender is, if the thread has yet to copy it.
-/

omit [DecidableEq ι] in
/-- To empty a mailbox is one of the changes everyone is prepared for. -/
theorem changes_emptied (s : Network ι) (i : Fin maxBox) :
    Changes page s.tweets i (s.cell i) { s.cell i with FROM := noData } :=
  Or.inr (Or.inr ⟨rfl, rfl⟩)

omit [DecidableEq ι] in
/-- `EmptyMailbox` keeps everyone sound, also where the mailbox is another process's as well. -/
theorem Sound.emptyMailbox (h : s.Sound page) (i : Fin maxBox) : (s.emptyMailbox i).Sound page :=
  h.world s.written (List.Subset.refl _) (changes_update (changes_emptied s i))

/-- `MonitorIncomingData`, one statement. One case for each. -/
theorem Sound.stepThread (h : s.Sound page) (hlive : who ∈ s.processes.live) :
    ∃ s', s.stepThread who = .ok s' ∧ s'.Sound page ∧ s'.tweets = s.tweets := by
  have hpeer := h who hlive
  unfold Network.stepThread
  cases hid : (s.processes.proc who).thisMailslot with
  | none => exact ⟨s, rfl, h, rfl⟩
  | some i =>
    have hwatches := hpeer.watches i hid
    -- the thread goes on to another statement
    have hgoto (pc : MonitorPc) (temp : MailBoxMessage)
        (hpc : Watches page s.tweets i (s.cell i) temp.data pc)
        (hthread : (s.peer who).thread ≠ .createMapping ∧ (s.peer who).thread ≠ .emptyFirst) :
        (s.setPeer who { s.peer who with thread := pc, pTempReadBuffer := temp }).Sound page := by
      refine h.setPeer fun _ => { hpeer with
        watches := fun j hj => ?_
        constructing := fun hmain => absurd (hpeer.constructing hmain).2.1 hthread.1
        emptyFirst := fun j hmain => absurd (hpeer.emptyFirst j hmain).2 hthread.2 }
      rw [hid] at hj
      obtain rfl := Option.some.inj hj
      exact hpc
    cases hthread : (s.peer who).thread with
    | createMapping | emptyFirst =>
      simp only [hthread]
      exact ⟨s, rfl, h, rfl⟩
    | checkFrom =>
      simp only [hthread]
      rw [hthread] at hwatches hgoto
      refine ⟨_, rfl, hgoto _ (s.peer who).pTempReadBuffer ?_ (by simp), rfl⟩
      split
      · next hne => exact hwatches.resolve_left hne
      · exact hwatches
    | copyCell =>
      simp only [hthread]
      rw [hthread] at hwatches hgoto
      exact ⟨_, rfl, hgoto .put ⟨s.cell i⟩ ⟨Or.inr hwatches, hwatches⟩ (by simp), rfl⟩
    | put =>
      simp only [hthread]
      rw [hthread] at hwatches hgoto
      split
      · obtain ⟨emptied, hlags⟩ := hpeer.inbox
        obtain ⟨q, hput, hq⟩ := hlags.put (s.peer who).pTempReadBuffer.data
        have hstep : (s.peer who).inbox.step (.put (s.peer who).pTempReadBuffer.data)
            = .ok ⟨q, (s.peer who).inbox.sent ++ [(s.peer who).pTempReadBuffer.data],
              (s.peer who).inbox.delivered⟩ := by
          rw [Session.step, hput]
          rfl
        rw [orFault_ok _ hstep, ok_bind]
        refine ⟨_, rfl, h.setPeer fun _ => { hpeer with
          inbox := ⟨emptied, hq⟩
          received := fun msg hmsg => ?_
          watches := fun j hj => ?_
          constructing := fun hmain => ?_
          emptyFirst := fun j hmain => ?_ }, rfl⟩
        · rcases List.mem_append.mp hmsg with hold | hnew
          · exact hpeer.received msg hold
          · rw [List.mem_singleton.mp hnew]
            exact ⟨i, hid, hwatches.2⟩
        · rw [hid] at hj
          obtain rfl := Option.some.inj hj
          exact hwatches.1
        · have hcreated := (hpeer.constructing hmain).2.1
          rw [hthread] at hcreated
          cases hcreated
        · have hfirst := (hpeer.emptyFirst j hmain).2
          rw [hthread] at hfirst
          cases hfirst
      · exact ⟨_, rfl, hgoto .checkFrom (s.peer who).pTempReadBuffer hwatches.1 (by simp), rfl⟩
    | emptyMailbox =>
      simp only [hthread]
      have hs₁ := h.emptyMailbox i
      have hpeer₁ := hs₁ who hlive
      refine ⟨_, rfl, hs₁.setPeer fun _ => { hpeer₁ with
        watches := fun j hj => ?_
        constructing := fun hmain => ?_
        emptyFirst := fun j hmain => ?_ }, rfl⟩
      · have hwatches₁ := hpeer₁.watches j hj
        rw [show ((s.emptyMailbox i).peer who).thread = .emptyMailbox from hthread] at hwatches₁
        exact hwatches₁
      · have hcreated := (hpeer.constructing hmain).2.1
        rw [hthread] at hcreated
        cases hcreated
      · have hfirst := (hpeer.emptyFirst j hmain).2
        rw [hthread] at hfirst
        cases hfirst

/-- `OnSendMsg_Click`: what joins the queue has been handed over. -/
theorem Sound.clickSend (h : s.Sound page) (hlive : who ∈ s.processes.live)
    (hmain : (s.peer who).main = .messageLoop) (selectedIndex : Int) (data : List UInt16) :
    (s.clickSend page who selectedIndex data).Sound page := by
  obtain ⟨hsound, hqueue, -, -, hhistory⟩ :=
    ((h who hlive).window (Or.inl hmain)).onSendMsgClick selectedIndex data
  have hs₁ := h.world s.written (List.subset_append_left s.tweets
    (s.clicked page who selectedIndex data)) fun i => Or.inl (Eq.refl (s.cell i))
  have hpeer₁ := hs₁ who hlive
  refine hs₁.setPeer fun _ => hpeer₁.handler hmain hsound
    (fun text htext => hpeer₁.shown text (hhistory ▸ htext)) fun i hi tweet htweet => ?_
  rw [hqueue] at htweet
  rcases List.mem_append.mp htweet with hold | hadded
  · exact hpeer₁.queued i hi tweet hold
  · obtain ⟨toBox, hbox, rfl⟩ := Option.map_eq_some_iff.mp (Option.mem_toList.mp hadded)
    refine ⟨⟨who, i, toBox, page.narrowText data⟩, List.mem_append_right _ ?_, rfl, rfl, rfl⟩
    have hid : (s.processes.proc who).thisMailslot = some i := hi
    simp only [clicked, hid, hbox, List.mem_singleton]

/-! ### The constructor

The loop of the constructor opens the mailboxes one by one until one of them cannot be opened, which
it then creates; nothing stops two processes from doing so at once. The greeting goes to every
mailbox that has been opened on the way. -/

/-- The window opens. -/
theorem Sound.openWindow (h : s.Sound page) (hlive : who ∈ s.processes.live) :
    ∃ s', s.openWindow who = .ok s' ∧ s'.Sound page ∧ s'.tweets = s.tweets := by
  have hpeer := h who hlive
  obtain ⟨w, hconstruct, hsound, hempty, hhistory⟩ :=
    Window.construct_sound (s.processes.proc who).thisMailslot
  refine ⟨s.setPeer who { s.peer who with window := w, main := .messageLoop }, ?_,
    h.setPeer fun _ => { hpeer with
    connections := hpeer.connections.mono fun j hj => ⟨hj.1, by simp⟩
    shown := fun text htext => absurd htext (hhistory text)
    constructing := fun hmain' => by cases hmain'
    emptyFirst := fun j hmain' => by cases hmain'
    unopened := fun hne => absurd (Or.inl rfl) hne
    window := fun _ => hsound
    queued := fun i _ tweet htweet => ?_
    sending := fun _ _ _ hmain' => by cases hmain' }, rfl⟩
  · rw [Network.openWindow, orFault_ok _ hconstruct, ok_bind]
  · dsimp only [Window.queue] at htweet
    rw [hempty, List.zip_nil_left] at htweet
    cases htweet

/-- A process in the loop of the constructor that has tried one more mailbox. -/
theorem Sound.tried (h : s.Sound page) (hlive : who ∈ s.processes.live)
    (hmain : (s.peer who).main = .constructing) {hMailBox : Fin maxBox → Bool} (pc : StartPc)
    {l : ConnectionList}
    (hl : Connects l fun i => hMailBox i = true ∧ (s.peer who).main ≠ .emptyFirst i)
    (hclosed : ∀ j : Fin maxBox, pc.position ≤ j → hMailBox j = false) :
    Sound page { s.setPeer who { s.peer who with pConnectionList := l } with
      processes := s.processes.setProc who { s.processes.proc who with hMailBox, pc } } := by
  have hpeer := h who hlive
  obtain ⟨hnone, hthread, -⟩ := hpeer.constructing hmain
  refine h.setProc { hpeer with
    connections := hl
    owns := fun i hi => ?_
    constructing := fun _ => ⟨hnone, hthread, hclosed⟩ }
  rw [hnone] at hi
  cases hi

theorem setPeer_eq_self (p : Peer) (hp : p = s.peer who) : s.setPeer who p = s := by
  rw [hp, Network.setPeer, Function.update_eq_self]

/-- `myCreateFile` in the constructor. -/
theorem Sound.construct_openBox (h : s.Sound page) (hlive : who ∈ s.processes.live)
    (hmain : (s.peer who).main = .constructing) {i : Nat}
    (hpc : (s.processes.proc who).pc = .openBox i) (creates maps : Bool) :
    ∃ s', s.construct page who creates maps = .ok s' ∧ s'.Sound page ∧ s'.tweets = s.tweets := by
  have hpeer := h who hlive
  obtain ⟨-, -, hclosed⟩ := hpeer.constructing hmain
  rw [hpc] at hclosed
  unfold Network.construct
  simp only [hmain, hpc]
  by_cases hi : i < maxBox
  · simp only [dif_pos hi]
    by_cases hexists : s.processes.NameExists ⟨i, hi⟩
    · rw [if_pos hexists]
      -- mailbox `i` has not been connected, since the loop is not behind it yet
      have hnew : ¬ ((s.processes.proc who).hMailBox ⟨i, hi⟩ = true
          ∧ (s.peer who).main ≠ .emptyFirst ⟨i, hi⟩) := fun hopened => by
        rw [hclosed ⟨i, hi⟩ (Nat.le_refl i)] at hopened
        exact Bool.false_ne_true hopened.1
      have hself : Function.update (s.processes.proc who).hMailBox ⟨i, hi⟩ true ⟨i, hi⟩ = true
          ∧ (s.peer who).main ≠ .emptyFirst ⟨i, hi⟩ := by
        rw [Function.update_self, hmain]
        exact ⟨rfl, by simp⟩
      obtain ⟨l, hadd, hl⟩ := addConnection_ok
        (fun j => Function.update (s.processes.proc who).hMailBox ⟨i, hi⟩ true j = true
          ∧ (s.peer who).main ≠ .emptyFirst j) hpeer.connections hnew hself
        (fun j hj => ⟨Processes.handles_update _ _ hj.1, hj.2⟩) maps
      rw [hadd, ok_bind]
      refine ⟨_, rfl, ?_, rfl⟩
      simp only [Processes.construct, hpc, dif_pos hi, if_pos hexists]
      refine h.tried hlive hmain _ hl fun j hj => ?_
      have hlt : i < j := hj
      rw [Function.update_of_ne fun heq => by rw [heq] at hlt; exact Nat.lt_irrefl i hlt]
      exact hclosed j (Nat.le_of_lt hlt)
    · -- the name does not exist: `CreateMailslot` is next
      rw [if_neg hexists]
      refine ⟨_, rfl, ?_, rfl⟩
      simp only [Processes.construct, hpc, dif_pos hi, if_neg hexists]
      have htried := h.tried hlive hmain (.createBox ⟨i, hi⟩) hpeer.connections hclosed
      rw [setPeer_eq_self _ rfl] at htried
      exact htried
  · -- all mailboxes have been tried
    simp only [dif_neg hi]
    simp only [Processes.construct, hpc, dif_neg hi]
    have htried := h.tried hlive hmain .running hpeer.connections fun j hj =>
      absurd j.isLt (Nat.not_lt.mpr hj)
    rw [setPeer_eq_self _ rfl] at htried
    exact htried.openWindow hlive

/-- `myCreateMailslot` in the constructor, up to `GetBuffer`. -/
theorem Sound.construct_createBox (h : s.Sound page) (hlive : who ∈ s.processes.live)
    (hmain : (s.peer who).main = .constructing) {i : Fin maxBox}
    (hpc : (s.processes.proc who).pc = .createBox i) (creates maps : Bool) :
    ∃ s', s.construct page who creates maps = .ok s' ∧ s'.Sound page ∧ s'.tweets = s.tweets := by
  have hpeer := h who hlive
  obtain ⟨hnone, hthread, hclosed⟩ := hpeer.constructing hmain
  rw [hpc] at hclosed
  unfold Network.construct
  simp only [hmain, hpc]
  -- `CreateFileMapping` may fail, and the loop goes on with the next mailbox
  cases creates with
  | false =>
    simp only [Bool.false_eq_true, if_false]
    refine ⟨_, rfl, ?_, rfl⟩
    simp only [Processes.construct, hpc, Bool.false_eq_true, if_false]
    have htried := h.tried hlive hmain (.openBox (i + 1)) hpeer.connections fun j hj =>
      hclosed j (Nat.le_of_succ_le hj)
    rw [setPeer_eq_self _ rfl] at htried
    exact htried
  | true =>
    simp only [if_true]
    -- the mailbox is claimed, whether or not its view can be mapped
    have hclaimed (main : MainPc) (thread : MonitorPc)
        (hmain' : main = .emptyFirst i ∨ main = .broadcast 0)
        (hthread' : thread = .createMapping ∨ thread = .emptyFirst)
        (hempty' : main = .emptyFirst i → thread = .emptyFirst) :
        Sound page (Network.setPeer { s with
          processes := s.processes.construct who true
          cell := if s.processes.NameExists i then s.cell
            else Function.update s.cell i Mailbox.zeroCell
          written := if s.processes.NameExists i then s.written
            else Function.update s.written i [] } who { s.peer who with main, thread }) := by
      simp only [Processes.construct, hpc, if_true]
      refine h.change (fun _ hw _ => hw)
        (fun w hw => ⟨Function.update_of_ne hw _ _, Function.update_of_ne hw _ _⟩)
        (List.Subset.refl _) (fun j => ?_) fun _ => ?_
      · -- a mapping that is new starts with zeros; one that exists by now, because another process
        -- has been faster, is left as it is
        by_cases hexists : s.processes.NameExists i
        · simp only [if_pos hexists]
          exact Or.inl (Or.inl rfl)
        · simp only [if_neg hexists]
          by_cases hj : j = i
          · exact Or.inr (hj ▸ hexists)
          · exact Or.inl (Or.inl (Function.update_of_ne hj _ _))
      · rw [setPeer_self]
        show Peer.Sound page _ _ (Function.update s.processes.proc who _ who) _
        rw [Function.update_self]
        exact hpeer.claim hmain (hclosed i (Nat.le_refl i)) hmain' hthread' hempty'
    cases maps with
    | false =>
      exact ⟨_, rfl, hclaimed _ _ (Or.inr rfl) (Or.inl hthread) (fun heq => by cases heq), rfl⟩
    | true => exact ⟨_, rfl, hclaimed _ _ (Or.inl rfl) (Or.inr rfl) (fun _ => rfl), rfl⟩

/-- The rest of `myCreateMailslot`. -/
theorem Sound.construct_emptyFirst (h : s.Sound page) (hlive : who ∈ s.processes.live)
    {i : Fin maxBox} (hmain : (s.peer who).main = .emptyFirst i) (creates maps : Bool) :
    ∃ s', s.construct page who creates maps = .ok s' ∧ s'.Sound page ∧ s'.tweets = s.tweets := by
  have hs₁ := h.emptyMailbox i
  have hpeer := hs₁ who hlive
  have hid := (hpeer.emptyFirst i hmain).1
  have hmain₁ : ((s.emptyMailbox i).peer who).main = .emptyFirst i := hmain
  unfold Network.construct
  simp only [hmain]
  -- the view becomes a connection only now
  obtain ⟨l, hadd, hl⟩ := addConnection_ok
    (fun j => (s.processes.proc who).hMailBox j = true ∧ MainPc.broadcast 0 ≠ .emptyFirst j)
    hpeer.connections (fun hopened => hopened.2 hmain₁) ⟨hpeer.owns i hid, by simp⟩
    (fun j hj => ⟨hj.1, by simp⟩) true
  have hadd' : addConnection (s.peer who) i true
      = .ok { s.peer who with pConnectionList := l } := hadd
  rw [hadd', ok_bind]
  refine ⟨_, rfl, hs₁.setPeer fun _ => { hpeer with
    connections := hl
    watches := fun j hj => Or.inl ?_
    constructing := fun heq => by cases heq
    emptyFirst := fun j heq => by cases heq
    unopened := fun _ => hpeer.unopened (by simp [MainPc.Opened, hmain₁])
    window := fun heq => by simp [MainPc.Opened] at heq
    sending := fun _ _ _ heq => by cases heq }, rfl⟩
  -- the mailbox that is watched from now on is empty
  have hid' : ((s.emptyMailbox i).processes.proc who).thisMailslot = some i := hid
  rw [hid'] at hj
  obtain rfl := Option.some.inj hj
  show (Function.update s.cell i { s.cell i with FROM := noData } i).FROM = noData
  rw [Function.update_self]

/-- A round of `SendBroadcastMsg`. -/
theorem Sound.construct_broadcast (h : s.Sound page) (hlive : who ∈ s.processes.live)
    {index : Nat} (hmain : (s.peer who).main = .broadcast index) (creates maps : Bool) :
    ∃ s', s.construct page who creates maps = .ok s' ∧ s'.Sound page
      ∧ ∀ tweet ∈ s'.tweets, tweet ∈ s.tweets ∨ tweet.text = greeting := by
  have hpeer := h who hlive
  unfold Network.construct
  simp only [hmain]
  by_cases hindex : index < maxBox
  · simp only [dif_pos hindex]
    -- the next round, whatever has been handed over
    have hnext {tweets : List (Tweet ι)} (hsub : s.tweets ⊆ tweets) :
        Sound page ({ s with tweets := tweets }.setPeer who { s.peer who with
          main := .broadcast (index + 1) }) := by
      have hs₁ := h.world s.written hsub fun i => Or.inl (Eq.refl (s.cell i))
      have hpeer₁ := hs₁ who hlive
      exact hs₁.setPeer fun _ => { hpeer₁ with
        connections := hpeer₁.connections.mono fun j hj => ⟨hj.1, by simp⟩
        constructing := fun heq => by cases heq
        emptyFirst := fun j heq => by cases heq
        unopened := fun _ => hpeer₁.unopened (by simp [MainPc.Opened, hmain])
        window := fun heq => by simp [MainPc.Opened] at heq
        sending := fun _ _ _ heq => by cases heq }
    split
    · next hsends =>
      cases hid : (s.processes.proc who).thisMailslot with
      | none => exact ⟨s, rfl, h, fun _ => Or.inl⟩
      | some fromBox =>
        rw [hid] at hsends
        have hother : IsOther (some fromBox) (index : Int) := ⟨⟨index, hindex⟩, rfl, hsends.1⟩
        have hs₁ := hnext (List.subset_append_left s.tweets
          [⟨who, fromBox, index, greeting⟩])
        obtain ⟨s', hwrite, hs', htweets⟩ := hs₁.writeTweets hlive hid hother
          ⟨_, List.mem_append_right _ (List.mem_singleton_self _), rfl, rfl, rfl⟩
        refine ⟨s', hwrite, hs', fun tweet htweet => ?_⟩
        rw [htweets] at htweet
        rcases List.mem_append.mp htweet with hold | hnew
        · exact Or.inl hold
        · rw [List.mem_singleton.mp hnew]
          exact Or.inr rfl
    · exact ⟨_, rfl, hnext (List.Subset.refl _), fun _ => Or.inl⟩
  · simp only [dif_neg hindex]
    obtain ⟨s', hopen, hs', htweets⟩ := h.openWindow hlive
    exact ⟨s', hopen, hs', fun _ htweet => Or.inl (htweets ▸ htweet)⟩

/-- One statement of the constructor. One case for each. -/
theorem Sound.construct (h : s.Sound page) (hlive : who ∈ s.processes.live) (creates maps : Bool) :
    ∃ s', s.construct page who creates maps = .ok s' ∧ s'.Sound page
      ∧ ∀ tweet ∈ s'.tweets, tweet ∈ s.tweets ∨ tweet.text = greeting := by
  -- only the broadcast hands anything over
  have hsame {s' : Network ι} (hstep : s.construct page who creates maps = .ok s' ∧ s'.Sound page
      ∧ s'.tweets = s.tweets) : s.construct page who creates maps = .ok s' ∧ s'.Sound page
      ∧ ∀ tweet ∈ s'.tweets, tweet ∈ s.tweets ∨ tweet.text = greeting :=
    ⟨hstep.1, hstep.2.1, fun _ htweet => Or.inl (hstep.2.2 ▸ htweet)⟩
  cases hmain : (s.peer who).main with
  | constructing =>
    cases hpc : (s.processes.proc who).pc with
    | openBox i => exact (h.construct_openBox hlive hmain hpc creates maps).imp fun _ => hsame
    | createBox i => exact (h.construct_createBox hlive hmain hpc creates maps).imp fun _ => hsame
    | running =>
      refine ⟨s, ?_, h, fun _ => Or.inl⟩
      simp only [Network.construct, hmain, hpc]
  | emptyFirst i => exact (h.construct_emptyFirst hlive hmain creates maps).imp fun _ => hsame
  | broadcast index => exact h.construct_broadcast hlive hmain creates maps
  | messageLoop | sending box tmp rounds =>
    refine ⟨s, ?_, h, fun _ => Or.inl⟩
    simp only [Network.construct, hmain]

/-! ### Runs

The invariant holds when nothing runs, since it speaks of processes that are live, and every event
keeps it. That no step faults comes along with it. -/

omit [DecidableEq ι] in
theorem new_sound (tweets : List (Tweet ι)) (cell : Fin maxBox → MailBoxFormat) (msgId : Int32) :
    (Peer.new msgId).Sound page tweets cell .new where
  connections := ⟨[], denotes_empty, List.nodup_nil, fun _ hmem => absurd hmem List.not_mem_nil⟩
  inbox := ⟨none, start_lags⟩
  received := fun _ hmsg => absurd hmsg List.not_mem_nil
  shown := fun _ hdata => absurd hdata List.not_mem_nil
  watches := fun _ _ => trivial
  owns := fun _ hi => by cases hi
  constructing := fun _ => ⟨rfl, rfl, fun _ _ => rfl⟩
  emptyFirst := fun _ hmain => by cases hmain
  unopened := fun _ => ⟨rfl, rfl⟩
  window := fun hmain => by simp [Peer.new, MainPc.Opened] at hmain
  queued := fun _ hi => by cases hi
  sending := fun _ _ _ hmain => by cases hmain

/-- A start adds a process that is sound, and changes nothing for the others. -/
theorem Sound.start (h : s.Sound page) (hnew : who ∉ s.processes.live) (msgId : Int32) :
    Sound page { s.setPeer who (.new msgId) with processes := s.processes.step (.start who) } := by
  have hstart : s.processes.step (.start who)
      = ⟨insert who s.processes.live, Function.update s.processes.proc who .new⟩ := if_neg hnew
  rw [hstart]
  refine h.change (fun w hw hne => Finset.mem_of_mem_insert_of_ne hw hne)
    (fun w hw => ⟨setPeer_of_ne _ hw, Function.update_of_ne hw _ _⟩)
    (List.Subset.refl _) (fun _ => Or.inl (Or.inl rfl)) fun _ => ?_
  show ((s.setPeer who _).peer who).Sound page s.tweets s.cell
    (Function.update s.processes.proc who .new who)
  rw [setPeer_self, Function.update_self]
  exact new_sound s.tweets s.cell msgId

/-- The tweet is the greeting of a constructor, or was typed and sent in a window. -/
def Typed (page : CodePage) (events : List (NetworkEvent ι)) (tweet : Tweet ι) : Prop :=
  tweet.text = greeting ∨ ∃ selectedIndex data,
    .clickSend tweet.sender selectedIndex data ∈ events ∧ tweet.text = page.narrowText data

omit [DecidableEq ι] in
/-- A tweet that some events type is typed by more of them. -/
theorem Typed.mono {events events' : List (NetworkEvent ι)} {tweet : Tweet ι}
    (h : Typed page events tweet) (hsub : events ⊆ events') : Typed page events' tweet := by
  rcases h with hgreeting | ⟨selectedIndex, data, hmem, htext⟩
  · exact Or.inl hgreeting
  · exact Or.inr ⟨selectedIndex, data, hsub hmem, htext⟩

/-- **One step.** It does not fault, and hands over nothing but what its event types. -/
theorem sound_step (h : s.Sound page) (event : NetworkEvent ι) :
    ∃ s', s.step page event = .ok s' ∧ s'.Sound page
      ∧ ∀ tweet ∈ s'.tweets, tweet ∈ s.tweets ∨ Typed page [event] tweet := by
  have hidle : s.Sound page ∧ ∀ tweet ∈ s.tweets, tweet ∈ s.tweets ∨ Typed page [event] tweet :=
    ⟨h, fun _ => Or.inl⟩
  -- most events hand nothing over
  have hsame {s' : Network ι} {x : Except NetworkFault (Network ι)}
      (hstep : x = .ok s' ∧ s'.Sound page ∧ s'.tweets = s.tweets) : x = .ok s' ∧ s'.Sound page
        ∧ ∀ tweet ∈ s'.tweets, tweet ∈ s.tweets ∨ Typed page [event] tweet :=
    ⟨hstep.1, hstep.2.1, fun _ htweet => Or.inl (hstep.2.2 ▸ htweet)⟩
  cases event with
  | start who msgId =>
    by_cases hlive : who ∈ s.processes.live
    · exact ⟨s, if_pos hlive, hidle⟩
    · exact ⟨_, if_neg hlive, h.start hlive msgId, fun _ => Or.inl⟩
  | construct who creates maps =>
    by_cases hlive : who ∈ s.processes.live
    · obtain ⟨s', hstep, hs', htweets⟩ := h.construct hlive creates maps
      exact ⟨s', (if_pos hlive).trans hstep, hs', fun tweet htweet =>
        (htweets tweet htweet).imp_right Or.inl⟩
    · exact ⟨s, if_neg hlive, hidle⟩
  | thread who =>
    by_cases hlive : who ∈ s.processes.live
    · obtain ⟨s', hstep, hs'⟩ := h.stepThread hlive
      exact ⟨s', hsame ⟨(if_pos hlive).trans hstep, hs'⟩⟩
    · exact ⟨s, if_neg hlive, hidle⟩
  | clickSend who selectedIndex data =>
    by_cases hready : who ∈ s.processes.live ∧ (s.peer who).main = .messageLoop
    · refine ⟨_, if_pos hready, h.clickSend hready.1 hready.2 selectedIndex data,
        fun tweet htweet => (List.mem_append.mp htweet).imp_right fun hnew => Or.inr ?_⟩
      unfold clicked at hnew
      split at hnew
      · rw [List.mem_singleton.mp hnew]
        exact ⟨selectedIndex, data, List.mem_singleton_self _, rfl⟩
      · cases hnew
    · exact ⟨s, if_neg hready, hidle⟩
  | timer1 who maps =>
    by_cases hready : who ∈ s.processes.live ∧ (s.peer who).main = .messageLoop
    · obtain ⟨s', hstep, hs'⟩ := h.timer1 hready.1 hready.2 maps
      exact ⟨s', hsame ⟨(if_pos hready).trans hstep, hs'⟩⟩
    · exact ⟨s, if_neg hready, hidle⟩
  | timer2 who =>
    by_cases hready : who ∈ s.processes.live ∧ (s.peer who).main = .messageLoop
    · obtain ⟨s', hstep, hs'⟩ := h.timer2 hready.1 hready.2
      exact ⟨s', hsame ⟨(if_pos hready).trans hstep, hs'⟩⟩
    · exact ⟨s, if_neg hready, hidle⟩
  | write who =>
    by_cases hlive : who ∈ s.processes.live
    · obtain ⟨s', hstep, hs'⟩ := h.writeRound hlive
      exact ⟨s', hsame ⟨(if_pos hlive).trans hstep, hs'⟩⟩
    · exact ⟨s, if_neg hlive, hidle⟩
  | exit who =>
    exact ⟨_, rfl, fun w hw => h w (Finset.mem_of_mem_erase hw), fun _ => Or.inl⟩

/-- **The run.** Induction on the events. -/
theorem sound_run (events : List (NetworkEvent ι)) :
    ∀ {s : Network ι}, s.Sound page → ∃ s', s.run page events = .ok s' ∧ s'.Sound page
      ∧ ∀ tweet ∈ s'.tweets, tweet ∈ s.tweets ∨ Typed page events tweet := by
  induction events with
  | nil => exact fun {s} h => ⟨s, rfl, h, fun _ => Or.inl⟩
  | cons event events ih =>
    intro s h
    obtain ⟨s₁, hstep, h₁, htweets₁⟩ := sound_step h event
    obtain ⟨s', hrun, h', htweets⟩ := ih h₁
    refine ⟨s', ?_, h', fun tweet htweet => ?_⟩
    · rw [Network.run, List.foldlM_cons, hstep]
      exact hrun
    · rcases htweets tweet htweet with hold | htyped
      · have hfirst : [event] ⊆ event :: events := List.cons_subset_cons event (List.nil_subset _)
        exact (htweets₁ tweet hold).imp_right (·.mono hfirst)
      · exact Or.inr (htyped.mono (List.subset_cons_self _ _))

end Step

end Network

open Network

/-- **Where it comes from.** Whatever the processes do and in whatever order, no step faults. What
a window shows as received is the header and the first 95 characters of a text that was typed into
another window, or is a constructor's greeting, and that was handed over for this window's mailbox
by a process with another mailbox; the sender in the header is that one or the mark `NO_DATA`. -/
theorem shown_was_sent [DecidableEq ι] (page : CodePage) (events : List (NetworkEvent ι)) :
    ∃ s, (initial : Network ι).run page events = .ok s
      ∧ ∀ who ∈ s.processes.live, ∀ data, .received data ∈ (s.peer who).window.history →
        ∃ tweet ∈ s.tweets, Typed page events tweet
          ∧ ∃ i, (s.processes.proc who).thisMailslot = some i ∧ tweet.toBox = Int.ofNat i
            ∧ tweet.fromBox ≠ i
            ∧ ∃ id fromId, data = shownText page id fromId tweet.text
              ∧ (fromId = MailslotId.toInt32 (some tweet.fromBox) ∨ fromId = noData) := by
  have hinit : (initial : Network ι).Sound page := fun _ hlive => absurd hlive (Finset.notMem_empty _)
  obtain ⟨s, hrun, hsound, htweets⟩ := sound_run events hinit
  refine ⟨s, hrun, fun who hlive data hdata => ?_⟩
  obtain ⟨i, hi, fromBox, text, id, fromId, ⟨tweet, htweet, rfl, hbox, rfl⟩, hne, hFROM, hshown⟩ :=
    (hsound who hlive).shown data hdata
  have htyped : Typed page events tweet :=
    (htweets tweet htweet).resolve_left List.not_mem_nil
  exact ⟨tweet, htweet, htyped, i, hi, hbox, hne, id, fromId, hshown, hFROM⟩

end OsLab.Twitter
