import Mathlib.Data.Finset.Card
import Mathlib.Data.Fintype.Card
import OsLab.Twitter.Mailslot

/-!
# OsLab.Twitter.Reuse — whether a mailbox can be had again

Processes whose constructors run through undisturbed. A constructor opens every mailbox it
passes and never closes it, and so does `ReadTweets`: a mapping outlives its owner as long as
anyone who was there to see it.

* **`Constructed`**: what a constructor leaves. It takes the first name that does not exist.
* **`Kept`**: every mapping belongs to a live owner. It holds as long as nobody exits whose
  mailbox another process has open, and leaves a name for an eleventh process to take.
* **`reusable_iff`** is the headline; in `mailboxes_used_up` one process holds all ten names.
-/

namespace OsLab.Twitter

/-- What processes do, a constructor being run to its end. -/
inductive WholeEvent (ι : Type*) where
  | start (who : ι)
  | readTweets (who : ι) (sender : Fin maxBox)
  | exit (who : ι)

/-- The statements of an event. Eleven are enough for any constructor; those left over find it
running and do nothing. -/
def WholeEvent.statements {ι : Type*} : WholeEvent ι → List (ProcessEvent ι)
  | .start who => .start who :: List.replicate (maxBox + 1) (.construct who true)
  | .readTweets who sender => [.readTweets who sender]
  | .exit who => [.exit who]

namespace Processes

variable {ι : Type*} {s s' : Processes ι} {who : ι}

/-- A live process with a handle keeps the mapping there. -/
theorem nameExists_of_handle {k : Fin maxBox} (hlive : who ∈ s.live)
    (h : (s.proc who).hMailBox k = true) : s.NameExists k :=
  ⟨who, hlive, h⟩

variable [DecidableEq ι]

def stepWhole (s : Processes ι) (event : WholeEvent ι) : Processes ι := s.run event.statements

def runWhole (s : Processes ι) (events : List (WholeEvent ι)) : Processes ι := events.foldl stepWhole s

/-- The process obtains a mailbox when it starts. -/
def ObtainsMailbox (s : Processes ι) (who : ι) : Prop :=
  ((s.stepWhole (.start who)).proc who).thisMailslot ≠ none

/-- Whoever exits has a mailbox no other process has open. -/
def ExitsUnheld (s : Processes ι) : WholeEvent ι → Prop
  | .exit who => who ∈ s.live → ∀ i, (s.proc who).thisMailslot = some i →
      ∀ w ∈ s.live, w ≠ who → (s.proc w).hMailBox i = false
  | _ => True

/-! ## The constructor

`MailslotMrg::MailslotMrg` tries the mailboxes one after the other. It opens those that are there,
and the first that is not it creates, and stops. Where it creates one, that is the mailbox the
process owns; where all are there, the process owns none. -/

/-- What the loop of the constructor leaves, from mailbox `i` on. -/
structure Constructed (s s' : Processes ι) (who : ι) (i : Nat) : Prop where
  live : s'.live = s.live
  running : (s'.proc who).pc = .running
  others : ∀ w, w ≠ who → s'.proc w = s.proc w
  kept : ∀ k, (s.proc who).hMailBox k = true → (s'.proc who).hMailBox k = true
  handles : ∀ k, (s'.proc who).hMailBox k = true →
    s.NameExists k ∨ (s'.proc who).thisMailslot = some k
  taken : ∀ k, (s'.proc who).thisMailslot = some k → ¬ s.NameExists k
    ∧ (s'.proc who).hMailBox k = true ∧ ∀ j : Fin maxBox, i ≤ j → j < k → s.NameExists j
  opened : ∀ k : Fin maxBox, i ≤ k → s.NameExists k →
    (∀ j, (s'.proc who).thisMailslot = some j → k < j) → (s'.proc who).hMailBox k = true
  none_iff : (s'.proc who).thisMailslot = none ↔ ∀ k : Fin maxBox, i ≤ k → s.NameExists k

theorem setProc_self (p : Process) : (s.setProc who p).proc who = p := Function.update_self _ _ _

theorem setProc_of_ne {w : ι} (p : Process) (h : w ≠ who) : (s.setProc who p).proc w = s.proc w :=
  Function.update_of_ne h _ _

/-- A handle to a mapping that exists brings no name into being. -/
theorem nameExists_setProc {p : Process}
    (hold : ∀ k, (s.proc who).hMailBox k = true → p.hMailBox k = true)
    (hnew : ∀ k, p.hMailBox k = true → s.NameExists k) (k : Fin maxBox) :
    (s.setProc who p).NameExists k ↔ s.NameExists k := by
  constructor
  · rintro ⟨w, hw, hhandle⟩
    by_cases heq : w = who
    · rw [heq, setProc_self] at hhandle
      exact hnew k hhandle
    · rw [setProc_of_ne p heq] at hhandle
      exact ⟨w, hw, hhandle⟩
  · rintro ⟨w, hw, hhandle⟩
    refine ⟨w, hw, ?_⟩
    by_cases heq : w = who
    · rw [heq] at hhandle ⊢
      rw [setProc_self]
      exact hold k hhandle
    · rw [setProc_of_ne p heq]
      exact hhandle

/-- A statement of a live process is carried out. -/
theorem step_construct (hlive : who ∈ s.live) :
    s.step (.construct who true) = s.construct who true := if_pos hlive

/-- A process that is running is left alone. -/
theorem run_running (hpc : (s.proc who).pc = .running) (n : Nat) :
    s.run (List.replicate n (.construct who true)) = s := by
  induction n with
  | zero => rfl
  | succ n ih =>
    have hidle : s.step (.construct who true) = s := by
      show (if who ∈ s.live then s.construct who true else s) = s
      simp only [construct, hpc, ite_self]
    show (s.step (.construct who true)).run (List.replicate n _) = s
    rw [hidle, ih]

/-- Mailbox `i` was there and has been opened, and the loop goes on behind it. -/
theorem Constructed.of_next {i : Nat} {p : Process} (hlive : who ∈ s.live) (hi : i < maxBox)
    (hexists : s.NameExists ⟨i, hi⟩)
    (hp : p.hMailBox = Function.update (s.proc who).hMailBox ⟨i, hi⟩ true)
    (h : Constructed (s.setProc who p) s' who (i + 1)) : Constructed s s' who i := by
  have hkept : ∀ k, (s.proc who).hMailBox k = true →
      ((s.setProc who p).proc who).hMailBox k = true := fun k hk => by
    rw [setProc_self, hp]
    exact handles_update _ k hk
  have hnames : ∀ k, (s.setProc who p).NameExists k ↔ s.NameExists k := by
    refine nameExists_setProc (fun k hk => ?_) fun k hk => ?_
    · rw [hp]
      exact handles_update _ k hk
    · rw [hp] at hk
      by_cases hki : k = ⟨i, hi⟩
      · rw [hki]
        exact hexists
      · rw [Function.update_of_ne hki] at hk
        exact nameExists_of_handle hlive hk
  have hopened : (s'.proc who).hMailBox ⟨i, hi⟩ = true := by
    refine h.kept _ ?_
    rw [setProc_self, hp, Function.update_self]
  -- mailbox `i` itself, and those behind it
  have hsplit : ∀ k : Fin maxBox, i ≤ k → k = ⟨i, hi⟩ ∨ i + 1 ≤ (k : Nat) := fun k hk => by
    rcases Nat.eq_or_lt_of_le hk with heq | hlt
    · exact Or.inl (Fin.ext heq.symm)
    · exact Or.inr hlt
  refine ⟨h.live, h.running, fun w hw => ?_, fun k hk => h.kept k (hkept k hk), fun k hk => ?_,
    fun k hk => ?_, fun k hk hex hbefore => ?_, ?_⟩
  · rw [h.others w hw, setProc_of_ne p hw]
  · rw [← hnames]
    exact h.handles k hk
  · obtain ⟨hfresh, hhandle, hfirst⟩ := h.taken k hk
    refine ⟨fun hex => hfresh ((hnames k).mpr hex), hhandle, fun j hj hjk => ?_⟩
    rcases hsplit j hj with rfl | hlater
    · exact hexists
    · exact (hnames j).mp (hfirst j hlater hjk)
  · rcases hsplit k hk with rfl | hlater
    · exact hopened
    · exact h.opened k hlater ((hnames k).mpr hex) hbefore
  · rw [h.none_iff]
    refine ⟨fun hall k hk => ?_, fun hall k hk => (hnames k).mpr (hall k (by omega))⟩
    rcases hsplit k hk with rfl | hlater
    · exact hexists
    · exact (hnames k).mp (hall k hlater)

/-- Mailbox `i` was not there and has been created. -/
theorem Constructed.of_created {i : Nat} {p : Process} (hlive : who ∈ s.live) (hi : i < maxBox)
    (hpc : p.pc = .running)
    (hfresh : ¬ s.NameExists ⟨i, hi⟩)
    (hp : p.hMailBox = Function.update (s.proc who).hMailBox ⟨i, hi⟩ true)
    (hid : p.thisMailslot = some ⟨i, hi⟩) : Constructed s (s.setProc who p) who i := by
  -- the process owns the mailbox it has created and no other
  have hown : ∀ {k}, p.thisMailslot = some k → k = ⟨i, hi⟩ := fun h => by
    rw [hid] at h
    exact (Option.some.inj h).symm
  refine ⟨rfl, ?_, fun w hw => setProc_of_ne p hw, fun k hk => ?_, fun k hk => ?_, fun k hk => ?_,
    fun k hk _ hbefore => ?_, ?_⟩
  · rw [setProc_self, hpc]
  · rw [setProc_self, hp]
    exact handles_update _ k hk
  · rw [setProc_self] at hk ⊢
    by_cases hki : k = ⟨i, hi⟩
    · -- a handle is an old one, or the one to the mapping created
      exact Or.inr (hki ▸ hid)
    · rw [hp, Function.update_of_ne hki] at hk
      exact Or.inl (nameExists_of_handle hlive hk)
  · rw [setProc_self] at hk ⊢
    obtain rfl := hown hk
    refine ⟨hfresh, ?_, fun j hj hji => absurd (Fin.lt_def.mp hji) (Nat.not_lt.mpr hj)⟩
    rw [hp, Function.update_self]
  · have hlt := hbefore _ (by rw [setProc_self, hid])
    exact absurd (Fin.lt_def.mp hlt) (Nat.not_lt.mpr hk)
  · rw [setProc_self, hid]
    exact iff_of_false (Option.some_ne_none _) fun hall => hfresh (hall ⟨i, hi⟩ (Nat.le_refl i))

/-- No mailbox is left to try. -/
theorem Constructed.of_last {i : Nat} {p : Process} (hlive : who ∈ s.live) (hi : maxBox ≤ i)
    (hpc : p.pc = .running) (hp : p.hMailBox = (s.proc who).hMailBox)
    (hnone : p.thisMailslot = none) : Constructed s (s.setProc who p) who i := by
  refine ⟨rfl, ?_, fun w hw => setProc_of_ne p hw, fun k hk => ?_, fun k hk => ?_, fun k hk => ?_,
    fun k hk => absurd k.isLt (by omega), ?_⟩
  · rw [setProc_self, hpc]
  · rw [setProc_self, hp]
    exact hk
  · rw [setProc_self, hp] at hk
    exact Or.inl (nameExists_of_handle hlive hk)
  · rw [setProc_self, hnone] at hk
    cases hk
  · rw [setProc_self]
    exact iff_of_true hnone fun k hk => absurd k.isLt (by omega)

section Rounds

variable {i : Nat} (hlive : who ∈ s.live) (hpc : (s.proc who).pc = .openBox i)
include hlive hpc

/-- Behind the last mailbox the constructor is done. -/
theorem step_last (hi : maxBox ≤ i) : s.step (.construct who true)
    = s.setProc who { s.proc who with pc := .running } := by
  rw [step_construct hlive]
  simp only [construct, hpc, dif_neg (Nat.not_lt.mpr hi)]

/-- A mailbox that is there is opened. -/
theorem step_open (hi : i < maxBox) (hexists : s.NameExists ⟨i, hi⟩) : s.step (.construct who true)
    = s.setProc who { s.proc who with
        hMailBox := Function.update (s.proc who).hMailBox ⟨i, hi⟩ true
        pc := .openBox (i + 1) } := by
  rw [step_construct hlive]
  simp only [construct, hpc, dif_pos hi, if_pos hexists]

/-- `CreateFile` fails, and `CreateMailslot` succeeds. -/
theorem step_create (hi : i < maxBox) (hfresh : ¬ s.NameExists ⟨i, hi⟩) :
    (s.step (.construct who true)).step (.construct who true)
      = s.setProc who { s.proc who with
          hMailBox := Function.update (s.proc who).hMailBox ⟨i, hi⟩ true
          thisMailslot := some ⟨i, hi⟩
          pc := .running } := by
  have hfail : s.step (.construct who true)
      = s.setProc who { s.proc who with pc := .createBox ⟨i, hi⟩ } := by
    rw [step_construct hlive]
    simp only [construct, hpc, dif_pos hi, if_neg hfresh]
  generalize hq : ({ s.proc who with pc := .createBox ⟨i, hi⟩ } : Process) = q at hfail
  have hpc' : ((s.setProc who q).proc who).pc = .createBox ⟨i, hi⟩ := by
    rw [setProc_self, ← hq]
  rw [hfail, step_construct (s := s.setProc who q) hlive]
  simp only [construct, hpc', if_true]
  rw [setProc_self, ← hq]
  simp only [setProc, Function.update_idem]

end Rounds

/-- **The constructor's loop.** Induction on the mailboxes still to try. -/
theorem constructor_spec (n : Nat) :
    ∀ {s : Processes ι} {i : Nat}, i + n = maxBox → who ∈ s.live → (s.proc who).pc = .openBox i →
      (s.proc who).thisMailslot = none →
      Constructed s (s.run (List.replicate (n + 1) (.construct who true))) who i := by
  induction n with
  | zero =>
    intro s i hi hlive hpc hnone
    show Constructed s (s.step (.construct who true)) who i
    rw [step_last hlive hpc (Nat.le_of_eq hi.symm)]
    exact .of_last hlive (Nat.le_of_eq hi.symm) rfl rfl hnone
  | succ n ih =>
    intro s i hi hlive hpc hnone
    have hlt : i < maxBox := by omega
    by_cases hexists : s.NameExists ⟨i, hlt⟩
    · -- mailbox `i` is there: open it and go on
      show Constructed s ((s.step (.construct who true)).run (List.replicate (n + 1) _)) who i
      rw [step_open hlive hpc hlt hexists]
      refine .of_next hlive hlt hexists rfl (ih (by omega) hlive ?_ ?_)
      · rw [setProc_self]
      · rw [setProc_self]
        exact hnone
    · -- it is not: one statement finds that out, the next creates it
      show Constructed s (((s.step (.construct who true)).step (.construct who true)).run
        (List.replicate n _)) who i
      rw [step_create hlive hpc hlt hexists, run_running (by rw [setProc_self])]
      exact .of_created hlive hlt rfl hexists rfl rfl

/-- A start, and then the constructor's statements. -/
theorem stepWhole_start : s.stepWhole (.start who)
    = (s.step (.start who)).run (List.replicate (maxBox + 1) (.construct who true)) := by
  rw [stepWhole, WholeEvent.statements, run, List.foldl_cons]
  rfl

/-- A new process has no handle, so it finds the names as they were. -/
theorem start_constructed (hnew : who ∉ s.live) :
    ∃ s₁ : Processes ι, s₁.live = insert who s.live ∧ (∀ w, w ≠ who → s₁.proc w = s.proc w)
      ∧ (∀ k, s₁.NameExists k ↔ s.NameExists k)
      ∧ Constructed s₁ (s.stepWhole (.start who)) who 0 := by
  generalize hs₁ : ({ live := insert who s.live, proc := Function.update s.proc who .new }
    : Processes ι) = s₁
  -- a new process has no handle, so the same names exist
  have hself : s₁.proc who = .new := by
    rw [← hs₁]
    exact Function.update_self _ _ _
  have hothers : ∀ w, w ≠ who → s₁.proc w = s.proc w := fun w hw => by
    rw [← hs₁]
    exact Function.update_of_ne hw _ _
  have hlive : s₁.live = insert who s.live := by rw [← hs₁]
  refine ⟨s₁, hlive, hothers, fun k => ⟨?_, ?_⟩, ?_⟩
  · rintro ⟨w, hw, hhandle⟩
    have hne : w ≠ who := by
      rintro rfl
      rw [hself] at hhandle
      cases hhandle
    rw [hothers w hne] at hhandle
    exact ⟨w, Finset.mem_of_mem_insert_of_ne (hlive ▸ hw) hne, hhandle⟩
  · rintro ⟨w, hw, hhandle⟩
    have hne : w ≠ who := fun heq => hnew (heq ▸ hw)
    rw [← hothers w hne] at hhandle
    exact ⟨w, hlive ▸ Finset.mem_insert_of_mem hw, hhandle⟩
  · have hstep : s.step (.start who) = s₁ := by
      rw [← hs₁]
      exact if_neg hnew
    rw [stepWhole_start, hstep]
    refine constructor_spec maxBox (Nat.zero_add _) ?_ ?_ ?_
    · rw [hlive]
      exact Finset.mem_insert_self who s.live
    · rw [hself]
      rfl
    · rw [hself]
      rfl

/-- **A start** gets a mailbox if there is a name left. -/
theorem obtainsMailbox_iff (hnew : who ∉ s.live) :
    s.ObtainsMailbox who ↔ ∃ i, ¬ s.NameExists i := by
  obtain ⟨s₁, -, -, hnames, hconstructed⟩ := start_constructed hnew
  rw [ObtainsMailbox, Ne, hconstructed.none_iff, not_forall]
  refine exists_congr fun k => ?_
  rw [hnames]
  exact ⟨fun h hex => h fun _ => hex, fun h hall => h (hall (Nat.zero_le _))⟩

/-! ## Mappings with a live owner

A mapping outlives its owner if another process has it open. When an owner exits only if nobody has,
every mapping that exists belongs to a live process, and so fewer live processes than mailboxes
leave a name that does not exist. -/

/-- All processes are past their constructor, and every mapping belongs to one of them. -/
structure Kept (s : Processes ι) : Prop where
  running : ∀ w ∈ s.live, (s.proc w).pc = .running
  owner : ∀ i, s.NameExists i → ∃ w ∈ s.live, (s.proc w).thisMailslot = some i

/-- A new process owns what it has created, and has opened only what somebody owns. -/
theorem start_kept (h : s.Kept) : (s.stepWhole (.start who)).Kept := by
  by_cases hlive : who ∈ s.live
  · have hidle : s.stepWhole (.start who) = s := by
      have hstart : s.step (.start who) = s := if_pos hlive
      rw [stepWhole_start, hstart, run_running (h.running who hlive)]
    rw [hidle]
    exact h
  · obtain ⟨s₁, hlive₁, hothers, hnames, hc⟩ := start_constructed hlive
    generalize s.stepWhole (.start who) = s' at hc ⊢
    have hmem : ∀ w, w ∈ s'.live ↔ w = who ∨ w ∈ s.live := fun w => by
      rw [hc.live, hlive₁, Finset.mem_insert]
    have hsame : ∀ w, w ≠ who → s'.proc w = s.proc w :=
      fun w hw => (hc.others w hw).trans (hothers w hw)
    have hold : ∀ i, s.NameExists i → ∃ w ∈ s'.live, (s'.proc w).thisMailslot = some i := by
      intro i hi
      obtain ⟨w, hw, hid⟩ := h.owner i hi
      have hne : w ≠ who := fun heq => hlive (heq ▸ hw)
      exact ⟨w, (hmem w).mpr (Or.inr hw), by rw [hsame w hne, hid]⟩
    refine ⟨fun w hw => ?_, fun i ⟨w, hw, hhandle⟩ => ?_⟩
    · by_cases heq : w = who
      · rw [heq]
        exact hc.running
      · rw [hsame w heq]
        exact h.running w (((hmem w).mp hw).resolve_left heq)
    · by_cases heq : w = who
      · -- the new process has opened what existed, and owns what it created
        rw [heq] at hhandle
        rcases hc.handles i hhandle with hex | hid
        · exact hold i ((hnames i).mp hex)
        · exact ⟨who, (hmem who).mpr (Or.inl rfl), hid⟩
      · rw [hsame w heq] at hhandle
        exact hold i ⟨w, ((hmem w).mp hw).resolve_left heq, hhandle⟩

/-- To open the sender's mailbox makes no mapping. -/
theorem readTweets_kept {sender : Fin maxBox} (h : s.Kept) :
    (s.stepWhole (.readTweets who sender)).Kept := by
  show (s.step (.readTweets who sender)).Kept
  by_cases hlive : who ∈ s.live
  · rw [step, if_pos hlive, readTweets]
    split
    · exact h
    · split
      · next hexists =>
        generalize hp : ({ s.proc who with
          hMailBox := Function.update (s.proc who).hMailBox sender true } : Process) = p
        have hnames : ∀ k, (s.setProc who p).NameExists k ↔ s.NameExists k := by
          refine nameExists_setProc (fun k hk => ?_) fun k hk => ?_
          · rw [← hp]
            exact handles_update _ k hk
          · rw [← hp] at hk
            by_cases hks : k = sender
            · rw [hks]
              exact hexists
            · exact nameExists_of_handle hlive ((Function.update_of_ne hks _ _).symm.trans hk)
        -- the process keeps its mailbox and its place
        have hfields : ∀ w, ((s.setProc who p).proc w).pc = (s.proc w).pc
            ∧ ((s.setProc who p).proc w).thisMailslot = (s.proc w).thisMailslot := by
          intro w
          by_cases heq : w = who
          · rw [heq, setProc_self, ← hp]
            exact ⟨rfl, rfl⟩
          · rw [setProc_of_ne p heq]
            exact ⟨rfl, rfl⟩
        refine ⟨fun w hw => (hfields w).1.trans (h.running w hw), fun i hi => ?_⟩
        obtain ⟨w, hw, hid⟩ := h.owner i ((hnames i).mp hi)
        exact ⟨w, hw, (hfields w).2.trans hid⟩
      · exact h
  · rw [step, if_neg hlive]
    exact h

/-- The mapping of the process that exits goes with it. -/
theorem exit_kept (h : s.Kept) (hguard : s.ExitsUnheld (.exit who)) :
    (s.stepWhole (.exit who)).Kept := by
  show Kept { s with live := s.live.erase who }
  refine ⟨fun w hw => h.running w (Finset.mem_of_mem_erase hw), fun i ⟨w, hw, hhandle⟩ => ?_⟩
  obtain ⟨hne, hwlive⟩ := Finset.mem_erase.mp hw
  obtain ⟨owner, howner, hid⟩ := h.owner i ⟨w, hwlive, hhandle⟩
  refine ⟨owner, Finset.mem_erase.mpr ⟨fun heq => ?_, howner⟩, hid⟩
  -- the mailbox of the process that exits is open in `w`
  subst heq
  rw [hguard howner i hid w hwlive hne] at hhandle
  cases hhandle

/-- One event that ends no mapping's owner too early. -/
theorem stepWhole_kept (event : WholeEvent ι) (hguard : s.ExitsUnheld event) (h : s.Kept) :
    (s.stepWhole event).Kept := by
  cases event with
  | start who => exact start_kept h
  | readTweets who sender => exact readTweets_kept h
  | exit who => exact exit_kept h hguard

omit [DecidableEq ι] in
/-- Fewer processes than mailboxes leave a name. -/
theorem Kept.exists_name (h : s.Kept) (hfew : s.live.card < maxBox) : ∃ i, ¬ s.NameExists i := by
  by_contra hall
  have hexists : ∀ i, s.NameExists i := fun i => by
    by_contra hi
    exact hall ⟨i, hi⟩
  have hsub : (Finset.univ : Finset (Fin maxBox)).image some
      ⊆ s.live.image fun w => (s.proc w).thisMailslot := by
    intro id hid
    obtain ⟨i, -, rfl⟩ := Finset.mem_image.mp hid
    obtain ⟨w, hw, hid⟩ := h.owner i (hexists i)
    exact Finset.mem_image.mpr ⟨w, hw, hid⟩
  have hcard := Finset.card_le_card hsub
  rw [Finset.card_image_of_injective _ (Option.some_injective _), Finset.card_univ,
    Fintype.card_fin] at hcard
  have hle := Finset.card_image_le (s := s.live) (f := fun w => (s.proc w).thisMailslot)
  omega

/-! ## The headline

The two are put together: what a start obtains is a question of which names exist, and which names
exist is a matter of how many processes live. -/

/-- **Headline.** After any events, a process that starts while fewer than `maxBox` are running
obtains a mailbox exactly if there is one that no running process has open; and there is one if
whoever exited had a mailbox no other process had open. -/
theorem reusable_iff {events : List (WholeEvent ι)}
    (hnew : who ∉ ((initial : Processes ι).runWhole events).live)
    (hfew : ((initial : Processes ι).runWhole events).live.card < maxBox) :
    (((initial : Processes ι).runWhole events).ObtainsMailbox who
        ↔ ∃ i, ∀ w ∈ ((initial : Processes ι).runWhole events).live,
          (((initial : Processes ι).runWhole events).proc w).hMailBox i = false)
      ∧ (GuardedRun.Guarded stepWhole ExitsUnheld (initial : Processes ι) events →
        ((initial : Processes ι).runWhole events).ObtainsMailbox who) := by
  have hiff := obtainsMailbox_iff hnew
  refine ⟨hiff.trans (exists_congr fun i => ?_), fun hguarded => hiff.mpr ?_⟩
  · refine ⟨fun hnot w hw => ?_, fun hnone ⟨w, hw, hhandle⟩ => ?_⟩
    · exact Bool.eq_false_iff.mpr fun hhandle => hnot ⟨w, hw, hhandle⟩
    · rw [hnone w hw] at hhandle
      cases hhandle
  · have hinit : (initial : Processes ι).Kept :=
      ⟨fun w hw => absurd hw (Finset.notMem_empty w),
        fun i ⟨w, hw, _⟩ => absurd hw (Finset.notMem_empty w)⟩
    exact Kept.exists_name (GuardedRun.Guarded.keeps (P := Kept)
      (fun s event hguard h => stepWhole_kept event hguard h) hinit hguarded (List.prefix_refl _)) hfew

/-! ## Running out of mailboxes

A relay of processes, each of which starts before the last one exits. Every one opens all that is
there, and so keeps the mailboxes of those that have gone. -/

/-- Processes `0` to `m`, each but the last one exiting as soon as the next has started. -/
def relay : Nat → List (WholeEvent Nat)
  | 0 => [.start 0]
  | m + 1 => relay m ++ [.start (m + 1), .exit m]

theorem runWhole_append {first rest : List (WholeEvent ι)} :
    s.runWhole (first ++ rest) = (s.runWhole first).runWhole rest := List.foldl_append

/-- A process that starts where the names below `m` exist takes mailbox `m`, and holds all up to
it. -/
theorem start_next {m : Nat} (hnew : who ∉ s.live) (hm : m < maxBox)
    (hnames : ∀ k : Fin maxBox, s.NameExists k ↔ (k : Nat) < m) :
    (s.stepWhole (.start who)).live = insert who s.live
      ∧ ∀ k : Fin maxBox, ((s.stepWhole (.start who)).proc who).hMailBox k = true ↔ (k : Nat) ≤ m := by
  obtain ⟨s₁, hlive, -, hnames₁, hc⟩ := start_constructed hnew
  generalize s.stepWhole (.start who) = s' at hc ⊢
  have hexists : ∀ k, s₁.NameExists k ↔ (k : Nat) < m := fun k => (hnames₁ k).trans (hnames k)
  obtain ⟨j, hj⟩ : ∃ j, (s'.proc who).thisMailslot = some j := by
    refine Option.ne_none_iff_exists'.mp fun hnone => ?_
    have hlt := (hexists ⟨m, hm⟩).mp (hc.none_iff.mp hnone ⟨m, hm⟩ (Nat.zero_le m))
    exact Nat.lt_irrefl m hlt
  -- the first name that does not exist is `m`
  obtain ⟨hfresh, hhandle, hfirst⟩ := hc.taken j hj
  have hjm : (j : Nat) = m := by
    refine Nat.le_antisymm (Nat.le_of_not_lt fun hlt => ?_)
      (Nat.le_of_not_lt fun hlt => hfresh ((hexists j).mpr hlt))
    exact Nat.lt_irrefl m ((hexists ⟨m, hm⟩).mp (hfirst ⟨m, hm⟩ (Nat.zero_le m) hlt))
  refine ⟨by rw [hc.live, hlive], fun k => ⟨fun hk => ?_, fun hk => ?_⟩⟩
  · rcases hc.handles k hk with hex | hid
    · exact Nat.le_of_lt ((hexists k).mp hex)
    · rw [hj] at hid
      cases hid
      exact Nat.le_of_eq hjm
  · rcases Nat.lt_or_eq_of_le hk with hlt | heq
    · refine hc.opened k (Nat.zero_le _) ((hexists k).mpr hlt) fun i hi => ?_
      rw [hj] at hi
      cases hi
      exact Fin.lt_def.mpr (hjm ▸ hlt)
    · rw [Fin.ext (heq.trans hjm.symm)]
      exact hhandle

/-- The last process of a relay has opened the mailboxes of all those before it. -/
theorem relay_spec (m : Nat) (hm : m < maxBox) :
    ((initial : Processes Nat).runWhole (relay m)).live = {m}
      ∧ ∀ k : Fin maxBox,
        ((initial : Processes Nat).runWhole (relay m)).NameExists k ↔ (k : Nat) ≤ m := by
  -- with one process left, the names are its handles
  have hsingle : ∀ {s : Processes Nat}, s.live = {m} →
      (∀ k : Fin maxBox, (s.proc m).hMailBox k = true ↔ (k : Nat) ≤ m) →
      ∀ k : Fin maxBox, s.NameExists k ↔ (k : Nat) ≤ m := by
    intro s hlive hheld k
    rw [← hheld k]
    refine ⟨fun ⟨w, hw, hhandle⟩ => ?_, fun hhandle => ⟨m, ?_, hhandle⟩⟩
    · rw [hlive, Finset.mem_singleton] at hw
      exact hw ▸ hhandle
    · rw [hlive]
      exact Finset.mem_singleton_self m
  cases m with
  | zero =>
    have hnew : 0 ∉ (initial : Processes Nat).live := Finset.notMem_empty 0
    have hnone : ∀ k : Fin maxBox, (initial : Processes Nat).NameExists k ↔ (k : Nat) < 0 := fun k =>
      iff_of_false (fun ⟨w, hw, _⟩ => Finset.notMem_empty w hw) (Nat.not_lt_zero _)
    obtain ⟨hlive, hheld⟩ := start_next hnew hm hnone
    exact ⟨hlive, hsingle hlive hheld⟩
  | succ m =>
    obtain ⟨hlive, hnames⟩ := relay_spec m (by omega)
    rw [relay, runWhole_append]
    generalize (initial : Processes Nat).runWhole (relay m) = s at hlive hnames ⊢
    have hnew : m + 1 ∉ s.live := by
      rw [hlive, Finset.mem_singleton]
      omega
    obtain ⟨hlive', hheld⟩ := start_next hnew hm fun k => (hnames k).trans Nat.lt_succ_iff.symm
    show ((s.stepWhole (.start (m + 1))).stepWhole (.exit m)).live = _ ∧ ∀ k,
      ((s.stepWhole (.start (m + 1))).stepWhole (.exit m)).NameExists k ↔ _
    generalize s.stepWhole (.start (m + 1)) = s' at hlive' hheld ⊢
    have hleft : (s'.stepWhole (.exit m)).live = {m + 1} := by
      show s'.live.erase m = {m + 1}
      rw [hlive', hlive]
      ext w
      simp only [Finset.mem_erase, Finset.mem_insert, Finset.mem_singleton]
      omega
    exact ⟨hleft, hsingle hleft hheld⟩

/-- Process `1` exits while `0` runs on with a mailbox of its own. Nobody has the mailbox of `1` open,
and a third process obtains one. -/
theorem reusable_after_exit :
    ((initial : Processes Nat).runWhole [.start 0, .start 1, .exit 1]).live = {0}
      ∧ ((initial : Processes Nat).runWhole [.start 0, .start 1, .exit 1]).ObtainsMailbox 2 := by
  have hleft : ((initial : Processes Nat).runWhole [.start 0, .start 1, .exit 1]).live = {0} := by
    decide +kernel
  have hguarded : GuardedRun.Guarded stepWhole ExitsUnheld (initial : Processes Nat)
      [.start 0, .start 1, .exit 1] := by
    refine ⟨trivial, trivial, ?_, trivial⟩
    unfold ExitsUnheld
    decide +kernel
  have hnew : 2 ∉ ((initial : Processes Nat).runWhole [.start 0, .start 1, .exit 1]).live := by
    rw [hleft]
    decide
  have hfew : ((initial : Processes Nat).runWhole [.start 0, .start 1, .exit 1]).live.card < maxBox := by
    rw [hleft]
    decide
  exact ⟨hleft, (reusable_iff hnew hfew).2 hguarded⟩

/-- **The defect**: nine have come and gone, one process is left, and the next one obtains no
mailbox. -/
theorem mailboxes_used_up :
    10 ∉ ((initial : Processes Nat).runWhole (relay 9)).live
      ∧ ((initial : Processes Nat).runWhole (relay 9)).live.card < maxBox
      ∧ ¬ ((initial : Processes Nat).runWhole (relay 9)).ObtainsMailbox 10 := by
  obtain ⟨hlive, hnames⟩ := relay_spec 9 (by decide)
  have hnew : 10 ∉ ((initial : Processes Nat).runWhole (relay 9)).live := by
    rw [hlive]
    decide
  refine ⟨hnew, ?_, fun hobtains => ?_⟩
  · rw [hlive]
    decide
  · obtain ⟨i, hi⟩ := (obtainsMailbox_iff hnew).mp hobtains
    exact hi ((hnames i).mpr (Nat.le_of_lt_succ i.isLt))

end Processes

end OsLab.Twitter
