import Mathlib.Data.Finset.Basic
import Mathlib.Logic.Function.Basic
import OsLab.Twitter.Mailbox

/-!
# OsLab.Twitter.Mailslot — who owns which mailbox

Any number of processes run the `MailslotMrg` constructor, receive messages and exit. A named
mapping exists as long as some live process has a handle to it. The constructor tries to open
each name in turn; where that fails it creates the mapping and takes the mailbox for its own,
without asking whether the mapping existed by then (`ERROR_ALREADY_EXISTS`).

The destructors and the end of a process are one step, `.exit`: between them a process still has
handles that it has not closed, and it can neither take a mailbox nor open one. What the threads do to
each other in that time is in `Twitter.Shutdown`.

* **`unique_of_fresh`**: as long as every mapping created is new, no two live processes own
  one mailbox.
* **`mailbox_owned_twice`**: two processes that fail to open the same name both own it.
-/

namespace OsLab.Twitter

/-- The statement of the `MailslotMrg` constructor a process executes next. -/
inductive StartPc where
  | openBox (i : Nat)           -- `hMailBox[i] = myCreateFile(…)`
  | createBox (i : Fin maxBox)  -- `hMailBox[i] = myCreateMailslot(…)`
  | running                     -- the constructor has returned
  deriving DecidableEq, Repr

/-- A process: `hMailBox i` says that `hMailBox[i]` is a handle. -/
structure Process where
  hMailBox : Fin maxBox → Bool
  thisMailslot : MailslotId
  pc : StartPc

def Process.new : Process :=
  { hMailBox := fun _ => false, thisMailslot := none, pc := .openBox 0 }

/-- The processes that are live, and the state of each. -/
structure Processes (ι : Type*) where
  live : Finset ι
  proc : ι → Process

inductive ProcessEvent (ι : Type*) where
  | start (who : ι)
  /-- The next statement of the constructor; `creates` tells whether a `CreateFileMapping`
  succeeds. -/
  | construct (who : ι) (creates : Bool)
  /-- `ReadTweets` delivers a message from the owner of a mailbox. -/
  | readTweets (who : ι) (sender : Fin maxBox)
  /-- The process exits, and its handles are closed. This is one step, the destructors included. -/
  | exit (who : ι)

namespace Processes

variable {ι : Type*}

def initial : Processes ι := { live := ∅, proc := fun _ => .new }

/-- The named mapping exists: some live process has a handle to it. -/
def NameExists (s : Processes ι) (i : Fin maxBox) : Prop :=
  ∃ who ∈ s.live, (s.proc who).hMailBox i = true

instance (s : Processes ι) (i : Fin maxBox) : Decidable (s.NameExists i) :=
  inferInstanceAs (Decidable (∃ who ∈ s.live, (s.proc who).hMailBox i = true))

/-- No two live processes own one mailbox. -/
def UniqueOwner (s : Processes ι) : Prop :=
  ∀ a ∈ s.live, ∀ b ∈ s.live, ∀ i : Fin maxBox,
    (s.proc a).thisMailslot = some i → (s.proc b).thisMailslot = some i → a = b

variable [DecidableEq ι]

def setProc (s : Processes ι) (who : ι) (p : Process) : Processes ι :=
  { s with proc := Function.update s.proc who p }

/-- `MailslotMrg::MailslotMrg`, one statement. `myCreateFile` succeeds exactly when the name
exists; `myCreateMailslot` does not depend on that. -/
def construct (s : Processes ι) (who : ι) (creates : Bool) : Processes ι :=
  let p := s.proc who
  match p.pc with
  | .openBox i =>
    if h : i < maxBox then
      if s.NameExists ⟨i, h⟩ then
        s.setProc who { p with
          hMailBox := Function.update p.hMailBox ⟨i, h⟩ true, pc := .openBox (i + 1) }
      else s.setProc who { p with pc := .createBox ⟨i, h⟩ }
    else s.setProc who { p with pc := .running }
  | .createBox i =>
    if creates then
      s.setProc who { p with
        hMailBox := Function.update p.hMailBox i true, thisMailslot := some i, pc := .running }
    else s.setProc who { p with pc := .openBox (i + 1) }
  | .running => s

/-- `ReadTweets` on a message with a valid sender: a first message opens the sender's mailbox. -/
def readTweets (s : Processes ι) (who : ι) (sender : Fin maxBox) : Processes ι :=
  let p := s.proc who
  if p.hMailBox sender then s
  else if s.NameExists sender then
    s.setProc who { p with hMailBox := Function.update p.hMailBox sender true }
  else s

/-- One step. Nothing happens to a process that is not live. -/
def step (s : Processes ι) : ProcessEvent ι → Processes ι
  | .start who =>
    if who ∈ s.live then s
    else { live := insert who s.live, proc := Function.update s.proc who .new }
  | .construct who creates => if who ∈ s.live then s.construct who creates else s
  | .readTweets who sender => if who ∈ s.live then s.readTweets who sender else s
  | .exit who => { s with live := s.live.erase who }

def run (s : Processes ι) (events : List (ProcessEvent ι)) : Processes ι := events.foldl step s

/-- A mapping that is created did not exist. -/
def CreatesFresh (s : Processes ι) : ProcessEvent ι → Prop
  | .construct who creates =>
    who ∈ s.live → creates → ∀ i, (s.proc who).pc = .createBox i → ¬ s.NameExists i
  | _ => True

/-- Every mapping created along the events is new. -/
def Fresh (s : Processes ι) (events : List (ProcessEvent ι)) : Prop :=
  GuardedRun.Guarded step CreatesFresh s events

/-! ## One step

An event does one of five things to the processes. Only `claimed` gives a mailbox to somebody. -/

/-- What a step leaves: a process ended, a process that owns no mailbox yet or owns what it
owned, with at least its handles, or one that has just created the mapping it now owns. -/
inductive Moves (s : Processes ι) (event : ProcessEvent ι) : Processes ι → Prop where
  | idle : Moves s event s
  | ended (who : ι) : Moves s event { s with live := s.live.erase who }
  | started (who : ι) :
      Moves s event { live := insert who s.live, proc := Function.update s.proc who .new }
  | kept (who : ι) (p : Process) (hlive : who ∈ s.live)
      (hid : p.thisMailslot = (s.proc who).thisMailslot)
      (hhandles : ∀ i, (s.proc who).hMailBox i = true → p.hMailBox i = true) :
      Moves s event (s.setProc who p)
  | claimed (who : ι) (p : Process) (i : Fin maxBox) (hlive : who ∈ s.live)
      (hid : p.thisMailslot = some i)
      (hhandle : p.hMailBox i = true) (hfresh : s.CreatesFresh event → ¬ s.NameExists i) :
      Moves s event (s.setProc who p)

theorem handles_update {handles : Fin maxBox → Bool} (i : Fin maxBox) :
    ∀ j, handles j = true → Function.update handles i true j = true := by
  intro j hj
  by_cases hji : j = i
  · rw [hji, Function.update_self]
  · rw [Function.update_of_ne hji, hj]

theorem construct_moves {s : Processes ι} {who : ι} (hlive : who ∈ s.live) (creates : Bool) :
    s.Moves (.construct who creates) (s.construct who creates) := by
  cases hpc : (s.proc who).pc with
  | openBox i =>
    simp only [construct, hpc]
    split
    · split
      · exact .kept who _ hlive rfl (handles_update _)
      · exact .kept who _ hlive rfl fun _ h => h
    · exact .kept who _ hlive rfl fun _ h => h
  | createBox i =>
    simp only [construct, hpc]
    split
    · next hcreates =>
      -- the handle that `CreateFileMapping` returns goes into the same array
      have hhandle : Function.update (s.proc who).hMailBox i true i = true :=
        Function.update_self _ _ _
      exact .claimed who _ i hlive rfl hhandle fun hfresh => hfresh hlive hcreates i hpc
    · exact .kept who _ hlive rfl fun _ h => h
  | running =>
    simp only [construct, hpc]
    exact .idle

theorem step_moves (s : Processes ι) (event : ProcessEvent ι) : s.Moves event (s.step event) := by
  cases event with
  | start who =>
    show Moves s _ (if who ∈ s.live then s else _)
    split
    · exact .idle
    · exact .started who
  | construct who creates =>
    show Moves s _ (if who ∈ s.live then s.construct who creates else s)
    split
    · next hlive => exact construct_moves hlive creates
    · exact .idle
  | readTweets who sender =>
    show Moves s _ (if who ∈ s.live then s.readTweets who sender else s)
    split
    · next hlive =>
      unfold readTweets
      dsimp only
      split
      · exact .idle
      · split
        · exact .kept who _ hlive rfl (handles_update _)
        · exact .idle
    · exact .idle
  | exit who => exact .ended who

/-! ## Ownership

An owner keeps its handle as long as it lives, and a mapping exists as long as somebody has a handle
to it. So a mapping that is created, if it is new, had no owner. -/

/-- An owner has a handle to its mapping, and no one else owns it. -/
structure Owned (s : Processes ι) : Prop where
  handle : ∀ who ∈ s.live, ∀ i, (s.proc who).thisMailslot = some i → (s.proc who).hMailBox i = true
  unique : s.UniqueOwner

/-- A step that changes one process, which afterwards owns at most what nobody else owns. -/
theorem Owned.change {s s' : Processes ι} {who : ι} (h : s.Owned)
    (hlive : ∀ w ∈ s'.live, w ≠ who → w ∈ s.live)
    (hothers : ∀ w, w ≠ who → s'.proc w = s.proc w)
    (hhandle : ∀ i, (s'.proc who).thisMailslot = some i → (s'.proc who).hMailBox i = true)
    (hfree : ∀ i, (s'.proc who).thisMailslot = some i → ∀ w ∈ s.live, w ≠ who →
      (s.proc w).thisMailslot ≠ some i) : s'.Owned := by
  refine ⟨fun w hw i hi => ?_, fun a ha b hb i hai hbi => ?_⟩
  · by_cases heq : w = who
    · subst heq
      exact hhandle i hi
    · rw [hothers w heq] at hi ⊢
      exact h.handle w (hlive w hw heq) i hi
  · by_cases hawho : a = who
    · -- two owners: one of them would be the process that has changed
      by_contra hne
      have hbwho : b ≠ who := fun heq => hne (hawho.trans heq.symm)
      rw [hothers b hbwho] at hbi
      exact hfree i (hawho ▸ hai) b (hlive b hb hbwho) hbwho hbi
    · rw [hothers a hawho] at hai
      by_cases hbwho : b = who
      · exact absurd hai (hfree i (hbwho ▸ hbi) a (hlive a ha hawho) hawho)
      · rw [hothers b hbwho] at hbi
        exact h.unique a (hlive a ha hawho) b (hlive b hb hbwho) i hai hbi

/-- One step that creates new mappings only. -/
theorem owned_moves {s s' : Processes ι} {event : ProcessEvent ι} (hmove : s.Moves event s')
    (hfresh : s.CreatesFresh event) (h : s.Owned) : s'.Owned := by
  cases hmove with
  | idle => exact h
  | ended who =>
    -- whose process has ended owns nothing any more
    have hsub {w : ι} (hw : w ∈ s.live.erase who) : w ∈ s.live := Finset.mem_of_mem_erase hw
    exact ⟨fun w hw => h.handle w (hsub hw), fun a ha b hb => h.unique a (hsub ha) b (hsub hb)⟩
  | started who =>
    -- a new process owns nothing
    have hnone : (Function.update s.proc who .new who).thisMailslot = none := by
      rw [Function.update_self]
      rfl
    refine h.change (fun w hw hne => Finset.mem_of_mem_insert_of_ne hw hne)
      (fun w hne => Function.update_of_ne hne _ _) (fun i hi => ?_) fun i hi => ?_
    · rw [hnone] at hi
      cases hi
    · rw [hnone] at hi
      cases hi
  | kept who p hlive hid hhandles =>
    have hself : (s.setProc who p).proc who = p := Function.update_self _ _ _
    refine h.change (fun w hw _ => hw) (fun w hne => Function.update_of_ne hne _ _)
      -- it owns what it owned, so nobody else does
      (fun i hi => ?_) fun i hi w hw hne hwi => ?_
    · rw [hself, hid] at hi
      rw [hself]
      exact hhandles i (h.handle who hlive i hi)
    · rw [hself, hid] at hi
      exact hne (h.unique w hw who hlive i hwi hi)
  | claimed who p i hlive hid hhandle hnew =>
    have hself : (s.setProc who p).proc who = p := Function.update_self _ _ _
    refine h.change (fun w hw _ => hw) (fun w hne => Function.update_of_ne hne _ _)
      (fun j hj => ?_) fun j hj w hw _ hwj => ?_
    · rw [hself, hid] at hj
      cases hj
      rw [hself]
      exact hhandle
    · -- another owner would have a handle, and the name would exist
      rw [hself, hid] at hj
      cases hj
      exact hnew hfresh ⟨w, hw, h.handle w hw i hwj⟩

/-- **One owner for each mailbox.** In a run in which every mapping created is new, no two live
processes own one mailbox in any state reached. -/
theorem unique_of_fresh (events : List (ProcessEvent ι))
    (hfresh : (initial : Processes ι).Fresh events) :
    ∀ first, first <+: events → ((initial : Processes ι).run first).UniqueOwner := by
  intro first hfirst
  have hinit : (initial : Processes ι).Owned :=
    ⟨fun _ hwho => absurd hwho (Finset.notMem_empty _),
      fun _ ha => absurd ha (Finset.notMem_empty _)⟩
  have howned : ((initial : Processes ι).run first).Owned :=
    GuardedRun.Guarded.keeps (P := Owned) (fun s event => owned_moves (step_moves s event))
      hinit hfresh hfirst
  exact howned.unique

/-- The second process starts when the first has its mailbox: it opens mailbox 0 and creates
mailbox 1. -/
theorem unique_of_fresh_two :
    ((initial : Processes (Fin 2)).run [.start 0, .construct 0 true, .construct 0 true, .start 1,
      .construct 1 true, .construct 1 true, .construct 1 true]).UniqueOwner := by
  refine unique_of_fresh _ ?_ _ (List.prefix_refl _)
  refine ⟨trivial, ?_, ?_, trivial, ?_, ?_, ?_, trivial⟩
  · intro _ _ i hpc
    cases hpc
  · intro _ _ i hpc
    cases hpc
    decide
  · intro _ _ i hpc
    cases hpc
  · intro _ _ i hpc
    cases hpc
  · intro _ _ i hpc
    cases hpc
    decide

/-- **One mailbox, two owners.** Both processes fail to open mailbox 0 before either creates
it; the second `CreateFileMapping` returns the mapping of the first. -/
theorem mailbox_owned_twice :
    ¬ ∀ events : List (ProcessEvent (Fin 2)),
      ((initial : Processes (Fin 2)).run events).UniqueOwner := by
  intro hall
  have hunique := hall [.start 0, .start 1, .construct 0 true, .construct 1 true,
    .construct 0 true, .construct 1 true]
  have hsame : (0 : Fin 2) = 1 := hunique 0 (by decide) 1 (by decide) 0 rfl rfl
  revert hsame
  decide

end Processes

end OsLab.Twitter
