import Mathlib.Data.List.FinRange
import Mathlib.Data.List.MinMax
import Mathlib.Data.Finset.Option
import Mathlib.Data.Fintype.Card
import OsLab.Lib.DemandPaging

/-!
# Page replacement by age

`k` numbered frames over an arbitrary type of pages, and the policies that replace the page
whose stamp is oldest: a page is stamped when it is loaded (`Stamp.onLoad`, first in first
out) or at every reference (`Stamp.onReference`, least recently used). A load goes to the
lowest-numbered empty frame while there is one.

* **`State.run`**: the policies, executable; `log` lists the stamped pages, newest first.
* **`Ages log xs`**: `xs` lists pages from the newest stamp to the oldest. `Ages.promote` and
  `Ages.load` keep such a list up to date, `oldest?_of_ages` reads the victim off its end.
* **`resident`** and its lemmas: the set of resident pages under a load.
* **`State.demandRun`**: the policies are demand paging, so optimality bounds them too.
-/

namespace PageReplacement

open DemandPaging

variable {P : Type*} {k : Nat}

/-! ## Frames

The page in each frame, if there is one. A page is looked for from the first frame on, and so is an
empty frame. -/

/-- The page in each frame. -/
abbrev Frames (k : Nat) (P : Type*) := Fin k → Option P

namespace Frames

/-- The lowest-numbered empty frame. -/
def empty? (frames : Frames k P) : Option (Fin k) :=
  (List.finRange k).find? fun i => (frames i).isNone

def load (frames : Frames k P) (i : Fin k) (p : P) : Frames k P :=
  Function.update frames i (some p)

/-- No page is in two frames. -/
def Injective (frames : Frames k P) : Prop :=
  ∀ ⦃i j p⦄, frames i = some p → frames j = some p → i = j

variable {frames : Frames k P} {i : Fin k} {p r w : P}

theorem empty?_some (h : frames.empty? = some i) : frames i = none := by
  simpa using List.find?_some h

/-- When none is found, every frame has a page. -/
theorem exists_page_of_empty?_eq_none (h : frames.empty? = none) (i : Fin k) :
    ∃ p, frames i = some p := by
  have hi : ¬ (frames i).isNone = true := List.find?_eq_none.mp h i (List.mem_finRange i)
  exact Option.ne_none_iff_exists'.mp fun heq => hi (heq ▸ rfl)

@[simp] theorem load_self : frames.load i r i = some r := Function.update_self _ _ _

theorem load_of_ne {j : Fin k} (h : j ≠ i) : frames.load i r j = frames j :=
  Function.update_of_ne h _ _

/-- Loading a page where it is changes nothing. -/
theorem load_eq_self (h : frames i = some p) : frames.load i p = frames := by
  rw [load, ← h]
  exact Function.update_eq_self i frames

variable [DecidableEq P]

/-- The first frame that holds the page. -/
def frameOf? (frames : Frames k P) (p : P) : Option (Fin k) :=
  (List.finRange k).find? fun i => frames i = some p

def resident (frames : Frames k P) : Finset P := (Finset.univ.image frames).eraseNone

/-- A page is resident if some frame has it. -/
theorem mem_resident : p ∈ frames.resident ↔ ∃ i, frames i = some p := by
  simp [resident]

/-- The search fails on the pages that are not resident. -/
theorem frameOf?_eq_none_iff : frames.frameOf? p = none ↔ p ∉ frames.resident := by
  rw [mem_resident]
  simp [frameOf?]

theorem frameOf?_some (h : frames.frameOf? p = some i) : frames i = some p := by
  simpa using List.find?_some h

/-- Where a page is in one frame only, that frame is found. -/
theorem Injective.frameOf?_eq (hinj : frames.Injective) (h : frames i = some p) :
    frames.frameOf? p = some i := by
  cases hfind : frames.frameOf? p with
  | none => exact absurd (mem_resident.mpr ⟨i, h⟩) (frameOf?_eq_none_iff.mp hfind)
  | some j => rw [hinj (frameOf?_some hfind) h]

/-- A page that was not there is now in one frame. -/
theorem Injective.load (hinj : frames.Injective) (hr : r ∉ frames.resident) (i : Fin k) :
    (frames.load i r).Injective := by
  -- no other frame has it
  have hold : ∀ j, j ≠ i → frames.load i r j ≠ some r := by
    intro j hj heq
    rw [load_of_ne hj] at heq
    exact hr (mem_resident.mpr ⟨j, heq⟩)
  intro a b p ha hb
  by_cases hai : a = i
  · subst hai
    rw [load_self] at ha
    cases ha
    by_contra hba
    exact hold b (Ne.symm hba) hb
  · by_cases hbi : b = i
    · subst hbi
      rw [load_self] at hb
      cases hb
      exact absurd ha (hold a hai)
    · rw [load_of_ne hai] at ha
      rw [load_of_ne hbi] at hb
      exact hinj ha hb

/-! ## Resident pages

How the set of resident pages changes when a page is loaded: into an empty frame it is added, into
another it takes the place of the page there. -/

theorem card_resident_le : frames.resident.card ≤ k := by
  have hle : frames.resident.card ≤ (Finset.univ.image frames).card := by
    rw [resident, Finset.card_eraseNone_eq_card_erase]
    exact Finset.card_erase_le
  have himage := Finset.card_image_le (s := Finset.univ) (f := frames)
  rw [Finset.card_fin] at himage
  exact Nat.le_trans hle himage

/-- A frame is left over while some frame is empty. -/
theorem card_resident_lt (h : frames i = none) : frames.resident.card < k := by
  have hnone : none ∈ Finset.univ.image frames :=
    Finset.mem_image.mpr ⟨i, Finset.mem_univ i, h⟩
  have herase : frames.resident.card + 1 = (Finset.univ.image frames).card := by
    rw [resident, Finset.card_eraseNone_eq_card_erase]
    exact Finset.card_erase_add_one hnone
  have himage := Finset.card_image_le (s := Finset.univ) (f := frames)
  rw [Finset.card_fin] at himage
  omega

/-- All frames are in use when none is empty. -/
theorem Injective.card_resident (hinj : frames.Injective) (hfull : frames.empty? = none) :
    frames.resident.card = k := by
  have hnone : none ∉ Finset.univ.image frames := by
    intro hmem
    obtain ⟨i, -, hi⟩ := Finset.mem_image.mp hmem
    obtain ⟨p, hp⟩ := exists_page_of_empty?_eq_none hfull i
    rw [hp] at hi
    cases hi
  have hfun : Function.Injective frames := by
    intro a b hab
    obtain ⟨p, hp⟩ := exists_page_of_empty?_eq_none hfull a
    exact hinj hp (hab ▸ hp)
  rw [resident, Finset.card_eraseNone_eq_card_erase, Finset.erase_eq_of_notMem hnone,
    Finset.card_image_of_injective _ hfun, Finset.card_fin]

theorem resident_load_subset : (frames.load i r).resident ⊆ insert r frames.resident := by
  intro p hp
  obtain ⟨j, hj⟩ := mem_resident.mp hp
  by_cases hji : j = i
  · subst hji
    rw [load_self] at hj
    cases hj
    exact Finset.mem_insert_self _ _
  · rw [load_of_ne hji] at hj
    exact Finset.mem_insert_of_mem (mem_resident.mpr ⟨j, hj⟩)

theorem mem_resident_load : r ∈ (frames.load i r).resident := mem_resident.mpr ⟨i, load_self⟩

/-- Into an empty frame: nothing goes out. -/
theorem resident_load_of_empty (h : frames i = none) :
    (frames.load i r).resident = insert r frames.resident := by
  refine Finset.Subset.antisymm resident_load_subset fun p hp => ?_
  rcases Finset.mem_insert.mp hp with rfl | hp
  · exact mem_resident_load
  · obtain ⟨j, hj⟩ := mem_resident.mp hp
    have hji : j ≠ i := by
      rintro rfl
      rw [h] at hj
      cases hj
    exact mem_resident.mpr ⟨j, by rw [load_of_ne hji]; exact hj⟩

/-- Into a frame with a page: that page goes out. -/
theorem Injective.resident_load (hinj : frames.Injective) (h : frames i = some w)
    (hr : r ∉ frames.resident) :
    (frames.load i r).resident = insert r (frames.resident.erase w) := by
  have hwr : w ≠ r := by
    rintro rfl
    exact hr (mem_resident.mpr ⟨i, h⟩)
  ext p
  rw [mem_resident, Finset.mem_insert, Finset.mem_erase, mem_resident]
  refine ⟨fun ⟨j, hj⟩ => ?_, fun hp => ?_⟩
  · by_cases hji : j = i
    · subst hji
      rw [load_self] at hj
      cases hj
      exact Or.inl rfl
    · rw [load_of_ne hji] at hj
      -- it is in another frame, so it is not the page that was here
      refine Or.inr ⟨?_, j, hj⟩
      rintro rfl
      exact hji (hinj hj h)
  · rcases hp with rfl | ⟨hpw, j, hj⟩
    · exact ⟨i, load_self⟩
    · have hji : j ≠ i := by
        rintro rfl
        rw [h] at hj
        exact hpw (Option.some.inj hj).symm
      exact ⟨j, by rw [load_of_ne hji]; exact hj⟩

end Frames

/-! ## Replacement by age

Pages are stamped when they are loaded, or at every reference. The log has the pages in the order of
their stamps, the newest first, and a page is as old as its place there. Which of the two is meant
is a parameter: by load it is first in, first out, by reference it is least recently used. -/

/-- When a page is stamped. -/
inductive Stamp where
  | onLoad
  | onReference
  deriving DecidableEq, Repr

structure State (k : Nat) (P : Type*) where
  frames : Frames k P
  log : List P
  faults : Nat

namespace State

variable [DecidableEq P]

def init : State k P := { frames := fun _ => none, log := [], faults := 0 }

/-- How many stamps were given since the page's own. -/
def age (s : State k P) (i : Fin k) : Nat := (s.frames i).elim 0 fun p => s.log.idxOf p

def oldest? (s : State k P) : Option (Fin k) := (List.finRange k).argmax s.age

/-- The frame to load into: an empty one, else the one with the oldest stamp. -/
def target? (s : State k P) : Option (Fin k) := s.frames.empty?.or s.oldest?

def step (stamp : Stamp) (s : State k P) (r : P) : State k P :=
  match s.frames.frameOf? r with
  | some _ =>
    match stamp with
    | .onLoad => s
    | .onReference => { s with log := r :: s.log }
  | none =>
    match s.target? with
    | some i => { frames := s.frames.load i r, log := r :: s.log, faults := s.faults + 1 }
    | none => { s with faults := s.faults + 1 }

def run (stamp : Stamp) (s : State k P) (ρ : List P) : State k P := ρ.foldl (step stamp) s

/-- A page that is resident is stamped again, or not. -/
theorem step_hit {s : State k P} {r : P} {i : Fin k} (h : s.frames.frameOf? r = some i)
    (stamp : Stamp) :
    s.step stamp r = { s with log := if stamp = .onReference then r :: s.log else s.log } := by
  cases stamp <;> simp [step, h]

/-- A page that is not goes into the target frame. -/
theorem step_miss {s : State k P} {r : P} {i : Fin k} (h : s.frames.frameOf? r = none)
    (hi : s.target? = some i) (stamp : Stamp) :
    s.step stamp r
      = { frames := s.frames.load i r, log := r :: s.log, faults := s.faults + 1 } := by
  simp only [step, h, hi]

/-- The first reference, and then the rest. -/
theorem run_cons (stamp : Stamp) (s : State k P) (r : P) (ρ : List P) :
    s.run stamp (r :: ρ) = (s.step stamp r).run stamp ρ := rfl

theorem run_append_singleton (stamp : Stamp) (s : State k P) (ρ : List P) (r : P) :
    s.run stamp (ρ ++ [r]) = (s.run stamp ρ).step stamp r := by
  rw [run, List.foldl_append]
  rfl

/-! ## Lists of pages by age

A list of pages that runs from the newest stamp to the oldest. The program keeps such a list and
takes the last page of it; here it is shown that this is the page the stamps say. -/

/-- `xs` lists stamped pages from the newest stamp to the oldest. -/
structure Ages (log xs : List P) : Prop where
  stamped : ∀ p ∈ xs, p ∈ log
  sorted : xs.Pairwise fun p q => log.idxOf p < log.idxOf q

variable {log xs ys : List P} {r w : P} {s : State k P} {i : Fin k}

theorem ages_nil : Ages (P := P) [] [] := ⟨by simp, List.Pairwise.nil⟩

theorem Ages.nodup (h : Ages log xs) : xs.Nodup :=
  h.sorted.imp fun hlt heq => absurd (heq ▸ hlt) (Nat.lt_irrefl _)

/-- Stamping a page puts it in front of what remains of the others. -/
theorem Ages.push (h : Ages log xs) (hsub : ys.Sublist xs) (hr : r ∉ ys) :
    Ages (r :: log) (r :: ys) := by
  have hne : ∀ p ∈ ys, p ≠ r := fun p hp heq => hr (heq ▸ hp)
  have hidx : ∀ p ∈ ys, (r :: log).idxOf p = log.idxOf p + 1 := fun p hp =>
    List.idxOf_cons_ne _ (Ne.symm (hne p hp))
  refine ⟨fun p hp => ?_, List.pairwise_cons.mpr ⟨fun p hp => ?_, ?_⟩⟩
  · rcases List.mem_cons.mp hp with rfl | hp
    · exact List.mem_cons_self
    · exact List.mem_cons_of_mem _ (h.stamped p (hsub.subset hp))
  · rw [List.idxOf_cons_self, hidx p hp]
    exact Nat.succ_pos _
  · refine (h.sorted.sublist hsub).imp_of_mem fun hp hq hlt => ?_
    rw [hidx _ hp, hidx _ hq]
    omega

/-- The oldest page is the last one. -/
theorem oldest?_of_ages (hinj : s.frames.Injective) (h : Ages s.log (ys ++ [w]))
    (hmem : ∀ p, p ∈ ys ++ [w] ↔ p ∈ s.frames.resident) (hfull : s.frames.empty? = none)
    (hi : s.frames i = some w) : s.oldest? = some i := by
  -- every other frame has a page that stands before the last one
  have hage : ∀ j, j ≠ i → s.age j < s.age i := by
    intro j hj
    obtain ⟨p, hp⟩ := Frames.exists_page_of_empty?_eq_none hfull j
    have hpw : p ≠ w := by
      rintro rfl
      exact hj (hinj hp hi)
    have hys : p ∈ ys := by
      have hp' := (hmem p).mpr (Frames.mem_resident.mpr ⟨j, hp⟩)
      rcases List.mem_append.mp hp' with hp' | hp'
      · exact hp'
      · exact absurd (List.mem_singleton.mp hp') hpw
    have hlt := (List.pairwise_append.mp h.sorted).2.2 p hys w (List.mem_singleton_self w)
    rw [age, age, hp, hi]
    exact hlt
  rw [oldest?]
  -- so the frame with the greatest age can only be this one
  cases hmax : (List.finRange k).argmax s.age with
  | none =>
    rw [List.argmax_eq_none] at hmax
    exact absurd (List.mem_finRange i) (hmax ▸ List.not_mem_nil)
  | some j =>
    by_cases hji : j = i
    · rw [hji]
    · have hle := List.le_of_mem_argmax (List.mem_finRange i) (Option.mem_def.mpr hmax)
      exact absurd (hage j hji) (Nat.not_lt.mpr hle)

/-! ## Runs

What holds after any references. -/

/-- With at least one frame there is always a target. -/
theorem target?_isSome (hk : 0 < k) (s : State k P) : ∃ i, s.target? = some i := by
  unfold target?
  cases s.frames.empty? with
  | some i => exact ⟨i, rfl⟩
  | none =>
    have hne : s.oldest? ≠ none := by
      rw [oldest?, Ne, List.argmax_eq_none, List.finRange_eq_nil_iff]
      omega
    exact Option.ne_none_iff_exists'.mp hne

/-- Stamped at every reference, the log is the reference string backwards. -/
theorem log_run_onReference (hk : 0 < k) (ρ : List P) :
    ∀ s : State k P, (s.run .onReference ρ).log = ρ.reverse ++ s.log := by
  induction ρ with
  | nil => exact fun _ => rfl
  | cons r ρ ih =>
    intro s
    have hlog : (s.step .onReference r).log = r :: s.log := by
      cases hfind : s.frames.frameOf? r with
      | some i => rw [step_hit hfind, if_pos rfl]
      | none =>
        obtain ⟨i, hi⟩ := s.target?_isSome hk
        rw [step_miss hfind hi]
    rw [run_cons, ih, hlog, List.reverse_cons, List.append_assoc]
    rfl

/-- A policy by age is a demand-paging policy. -/
theorem demandRun (hk : 0 < k) (stamp : Stamp) (ρ : List P) :
    ∀ s : State k P, ∃ n, Run k s.frames.resident ρ n
      ∧ (s.run stamp ρ).faults = s.faults + n := by
  induction ρ with
  | nil => exact fun s => ⟨0, .nil _, rfl⟩
  | cons r ρ ih =>
    intro s
    rw [run_cons]
    cases hfind : s.frames.frameOf? r with
    | some i =>
      -- a hit
      have hr : r ∈ s.frames.resident :=
        Frames.mem_resident.mpr ⟨i, Frames.frameOf?_some hfind⟩
      obtain ⟨n, hrun, hcount⟩ := ih (s.step stamp r)
      rw [step_hit hfind] at hrun hcount ⊢
      exact ⟨n, .hit hr hrun, hcount⟩
    | none =>
      -- a fault: one page comes in, at most one goes out
      obtain ⟨i, hi⟩ := s.target?_isSome hk
      obtain ⟨n, hrun, hcount⟩ := ih (s.step stamp r)
      rw [step_miss hfind hi] at hrun hcount ⊢
      refine ⟨n + 1, .fault (Frames.frameOf?_eq_none_iff.mp hfind) Frames.mem_resident_load
        Frames.resident_load_subset Frames.card_resident_le hrun, ?_⟩
      rw [hcount, Nat.add_assoc, Nat.add_comm 1 n]

end State

end PageReplacement
