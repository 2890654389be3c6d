import Mathlib.Data.Finset.Card
import Mathlib.Data.List.Induction
import OsLab.Lib.PagedAddress

/-!
# OsLab.Translator — the address translator

`MemoryManagement.cpp`: 256 frames for 256 pages, so a page is loaded once and stays. A page
goes to the frame of its own number, and the page table is written at `previous_page`, which
the loop has just set to the page; looking a page up scans for the value and returns it.

* **`Loaded store m pages`**: exactly the pages of the set are in the table, each at its own
  index, and their frames hold their bytes. `Loaded.insert` is a page fault.
* **`mainStep_spec`**: one address; **`mainLoop_spec`**: the addresses read so far.
* **`mainLoop_correct`**: what the program prints.
-/

namespace OsLab.Translator

def notFound : Int := -1

/-- `EMPTY`. -/
def emptyMark : Int := -1

abbrev numberOfFrames : Nat := 256
abbrev numberOfPages : Nat := 256

/-- `physical_memory` (a null frame is `none`) and `page_table`. -/
structure Memory where
  physicalMemory : Vector (Option (Vector UInt8 numberOfPages)) numberOfFrames
  pageTable : Vector Int numberOfFrames

/-- `init_PhysicalMemory()`. -/
def initPhysicalMemory : Memory :=
  { physicalMemory := Vector.replicate numberOfFrames none
    pageTable := Vector.replicate numberOfFrames emptyMark }

/-- `(address_param & 0xffff) >> 8`. -/
def getPageNumber (address : Int32) : Int := ((address &&& 0xffff) >>> 8).toInt

/-- `address_param & 0xff`. -/
def getPageOffset (address : Int32) : Int := (address &&& 0xff).toInt

/-- `is_PageLoaded(page_number)`: the page number itself if some entry of the table is it. -/
def isPageLoaded (pageTable : Vector Int numberOfFrames) (pageNumber : Int) : Int :=
  if pageNumber ∈ pageTable then pageNumber else notFound

/-- `fetchData(frame_index, offset)`; `none` for an index outside the arrays and for a frame
that is null. -/
def fetchData (m : Memory) (frameIndex offset : Int) : Option UInt8 :=
  if frameIndex < 0 ∨ offset < 0 then none
  else (m.physicalMemory[frameIndex.toNat]?).join.bind fun frame => frame[offset.toNat]?

/-- `load_LogicalToPhysical(frame_index, page_number)`; the backing store is `none` when it
cannot be opened. Both range checks return `NULL`, that is `false`. -/
def loadLogicalToPhysical (backingStore : Option (Nat → UInt8)) (m : Memory)
    (frameIndex pageNumber : Int) : Bool × Memory :=
  if pageNumber < 0 ∨ pageNumber > numberOfPages - 1 then (false, m)
  else if frameIndex < 0 ∨ frameIndex > numberOfFrames - 1 then (false, m)
  else match backingStore with
    | none => (false, m)
    | some store =>
      let page := Vector.ofFn fun offset : Fin numberOfPages =>
        store (pageNumber.toNat * numberOfPages + offset)
      (true, { m with
        physicalMemory := m.physicalMemory.setIfInBounds frameIndex.toNat (some page) })

/-- `update_PageTable(page_table_index, page_number)`. -/
def updatePageTable (m : Memory) (pageTableIndex pageNumber : Int) : Memory :=
  if pageNumber < 0 ∨ pageNumber > numberOfPages - 1 then m
  else if pageTableIndex < 0 ∨ pageTableIndex > numberOfFrames - 1 then m
  else { m with pageTable := m.pageTable.setIfInBounds pageTableIndex.toNat pageNumber }

/-- The locals of `main` that a round leaves to the next, with what has been printed. -/
structure MainState where
  memory : Memory
  previousPage : Int
  pageJump : Nat
  faultCount : Nat
  output : List UInt8

/-- One round of the loop of `main`, which does not test whether the load succeeded; `none`
when `fetchData` reads through a null frame. -/
def mainStep (backingStore : Option (Nat → UInt8)) (s : MainState) (address : Int32) :
    Option MainState := do
  let page := getPageNumber address
  let offset := getPageOffset address
  let s := if s.previousPage ≠ page
    then { s with previousPage := page, pageJump := s.pageJump + 1 } else s
  let frameIndex := isPageLoaded s.memory.pageTable page
  let (frameIndex, s) := if frameIndex = notFound then
      let (_, memory) := loadLogicalToPhysical backingStore s.memory page page
      (page, { s with
        memory := updatePageTable memory s.previousPage page, faultCount := s.faultCount + 1 })
    else (frameIndex, s)
  let data ← fetchData s.memory frameIndex offset
  some { s with output := s.output ++ [data] }

/-- The state of `main` before its loop. -/
def mainInit : MainState :=
  { memory := initPhysicalMemory, previousPage := -1, pageJump := 0, faultCount := 0, output := [] }

/-- The loop of `main` over the addresses read. -/
def mainLoop (backingStore : Option (Nat → UInt8)) (addresses : List Int32) : Option MainState :=
  addresses.foldlM (mainStep backingStore) mainInit

/-! ## Addresses

The mask and the shift give the page and the offset, also for a negative address. -/

open PagedAddress

theorem getPageNumber_eq (address : Int32) : getPageNumber address = page address :=
  toInt_maskShift address

theorem getPageOffset_eq (address : Int32) : getPageOffset address = offset address :=
  toInt_mask address

/-! ## The loaded pages

There is a frame for every page. A page goes to the frame of its own number, and the table has at
that index the number itself. -/

/-- Exactly the pages of the set are loaded, each in the frame and at the index of its number. -/
structure Loaded (store : Nat → UInt8) (m : Memory) (pages : Finset Nat) : Prop where
  entry : ∀ i : Fin numberOfFrames,
    m.pageTable[i] = if i.val ∈ pages then ((i : Nat) : Int) else emptyMark
  bytes : ∀ i : Fin numberOfFrames, i.val ∈ pages → m.physicalMemory[i]
    = some (Vector.ofFn fun offset : Fin numberOfPages => store (i * numberOfPages + offset))

variable {store : Nat → UInt8} {m : Memory} {pages : Finset Nat}

theorem loaded_init (store : Nat → UInt8) : Loaded store initPhysicalMemory ∅ where
  entry := fun i => by
    rw [if_neg (Finset.notMem_empty _)]
    exact Vector.getElem_replicate i.isLt
  bytes := fun i hi => absurd hi (Finset.notMem_empty _)

/-- A page that is loaded is found at its own number. -/
theorem Loaded.isPageLoaded_eq (h : Loaded store m pages) {p : Nat} (hp : p < numberOfFrames) :
    isPageLoaded m.pageTable p = if p ∈ pages then (p : Int) else notFound := by
  have hmem : (p : Int) ∈ m.pageTable ↔ p ∈ pages := by
    rw [Vector.mem_iff_getElem]
    constructor
    · rintro ⟨i, hi, heq⟩
      have hentry := h.entry ⟨i, hi⟩
      rw [Fin.getElem_fin, heq] at hentry
      split at hentry
      · next hin => rwa [Int.ofNat_inj.mp hentry]
      · unfold emptyMark at hentry
        omega
    · intro hin
      refine ⟨p, hp, ?_⟩
      have hentry := h.entry ⟨p, hp⟩
      rwa [if_pos hin] at hentry
  unfold isPageLoaded
  simp only [hmem]

/-- The byte read is that of the backing store. -/
theorem Loaded.fetchData_eq (h : Loaded store m pages) {address : Int32}
    (hin : page address ∈ pages) :
    fetchData m (page address : Nat) (getPageOffset address) = some (store (position address)) := by
  have hpage := page_lt address
  have hoffset := offset_lt address
  have hframe : m.physicalMemory[((page address : Nat) : Int).toNat]? = some (some
      (Vector.ofFn fun i : Fin numberOfPages => store (page address * numberOfPages + i))) := by
    rw [Int.toNat_natCast, Vector.getElem?_eq_getElem hpage]
    exact congrArg some (h.bytes ⟨page address, hpage⟩ hin)
  rw [getPageOffset_eq, fetchData, if_neg (by omega), hframe]
  show (Vector.ofFn _)[(offset address : Int).toNat]? = _
  rw [Int.toNat_natCast, Vector.getElem?_eq_getElem hoffset, Vector.getElem_ofFn]
  exact congrArg (fun i => some (store i)) (position_eq address)

/-- **A page fault.** The page goes to its own frame and to its own index of the table. -/
theorem Loaded.insert (h : Loaded store m pages) {p : Nat} (hp : p < numberOfFrames) :
    Loaded store (updatePageTable (loadLogicalToPhysical (some store) m p p).2 p p)
      (insert p pages) := by
  have hrange : ¬ ((p : Int) < 0 ∨ (p : Int) > numberOfFrames - 1) := by omega
  rw [loadLogicalToPhysical, if_neg hrange, if_neg hrange, updatePageTable, if_neg hrange,
    if_neg hrange]
  refine ⟨fun i => ?_, fun i hi => ?_⟩
  · -- the entry of the page, and the others as they were
    show (m.pageTable.setIfInBounds (p : Int).toNat (p : Int))[i] = _
    rw [Fin.getElem_fin, Vector.getElem_setIfInBounds, Int.toNat_natCast]
    by_cases hpi : p = i.val
    · subst hpi
      rw [if_pos rfl, if_pos (Finset.mem_insert_self _ _)]
    · have hentry := h.entry i
      rw [Fin.getElem_fin] at hentry
      rw [if_neg hpi, hentry]
      simp only [Finset.mem_insert, Ne.symm hpi, false_or]
  · -- its frame, and the others as they were
    show (m.physicalMemory.setIfInBounds (p : Int).toNat _)[i] = _
    rw [Fin.getElem_fin, Vector.getElem_setIfInBounds, Int.toNat_natCast]
    by_cases hpi : p = i.val
    · subst hpi
      rw [if_pos rfl]
    · rw [if_neg hpi]
      exact h.bytes i (Finset.mem_of_mem_insert_of_ne hi (Ne.symm hpi))

/-! ## What the counts mean

`faultCount` counts pages, since no page is ever given up. `pageJump` counts the addresses on
another page than the one before. -/

/-- The different pages referred to. -/
def distinctPages (addresses : List Int32) : Finset Nat := (addresses.map page).toFinset

/-- The positions whose page differs from that of the position before, the first one counting. -/
def jumps (addresses : List Int32) : Finset Nat :=
  (Finset.range addresses.length).filter fun i =>
    i = 0 ∨ (addresses.map page)[i]? ≠ (addresses.map page)[i - 1]?

/-- `previous_page` after the addresses. -/
def lastPage (addresses : List Int32) : Int :=
  (addresses.map page).getLast?.elim (-1) fun p => (p : Int)

/-- One more address, one more page perhaps. -/
theorem distinctPages_append (addresses : List Int32) (address : Int32) :
    distinctPages (addresses ++ [address]) = insert (page address) (distinctPages addresses) := by
  ext p
  simp [distinctPages, eq_comm]

theorem lastPage_append (addresses : List Int32) (address : Int32) :
    lastPage (addresses ++ [address]) = page address := by
  simp [lastPage]

/-- The last position is a jump when the page before it was another one, or there was none. -/
theorem lastPage_ne_iff (addresses : List Int32) (address : Int32) :
    lastPage addresses ≠ page address
      ↔ addresses.length = 0 ∨ some (page address) ≠ (addresses.map page)[addresses.length - 1]? := by
  have hlast : (addresses.map page)[addresses.length - 1]? = (addresses.map page).getLast? := by
    rw [List.getLast?_eq_getElem?, List.length_map]
  rw [hlast, lastPage]
  cases hmap : (addresses.map page).getLast? with
  | none =>
    -- without an address before it, `previous_page` is `-1`
    have hnil : addresses.length = 0 := by
      rw [List.getLast?_eq_none_iff, List.map_eq_nil_iff] at hmap
      rw [hmap]
      rfl
    refine iff_of_true ?_ (Or.inl hnil)
    show (-1 : Int) ≠ page address
    omega
  | some p =>
    have hne : addresses.length ≠ 0 := by
      intro hzero
      rw [List.length_eq_zero_iff.mp hzero] at hmap
      cases hmap
    simp only [Option.elim_some, Ne, Int.natCast_inj, hne, Option.some.injEq, false_or, eq_comm]

/-- One more address, one more jump if its page is another one. -/
theorem card_jumps_append (addresses : List Int32) (address : Int32) :
    (jumps (addresses ++ [address])).card
      = if lastPage addresses ≠ page address then (jumps addresses).card + 1
        else (jumps addresses).card := by
  -- the positions before the last one see the same pages
  have hbefore : (Finset.range addresses.length).filter (fun i =>
      i = 0 ∨ ((addresses ++ [address]).map page)[i]? ≠ ((addresses ++ [address]).map page)[i - 1]?)
        = jumps addresses := by
    refine Finset.filter_congr fun i hi => ?_
    have hlt : i < (addresses.map page).length := by
      rw [List.length_map]
      exact Finset.mem_range.mp hi
    rw [List.map_append, List.getElem?_append_left hlt, List.getElem?_append_left (by omega)]
  have hlast : (addresses.length = 0 ∨ ((addresses ++ [address]).map page)[addresses.length]?
      ≠ ((addresses ++ [address]).map page)[addresses.length - 1]?)
        ↔ lastPage addresses ≠ page address := by
    have hthis : ((addresses ++ [address]).map page)[addresses.length]? = some (page address) := by
      simp
    rw [lastPage_ne_iff, hthis]
    refine or_congr_right' fun hne => ?_
    have hlt : addresses.length - 1 < (addresses.map page).length := by
      rw [List.length_map]
      omega
    rw [List.map_append, List.getElem?_append_left hlt]
  unfold jumps at hbefore ⊢
  rw [List.length_append, List.length_singleton, Finset.range_add_one, Finset.filter_insert, hbefore]
  simp only [hlast]
  split
  · rw [Finset.card_insert_of_notMem (by simp)]
  · rfl

/-! ## The loop

The invariant says what has been printed and counted, and which pages are loaded. One round for each
address. -/

/-- What has been printed and counted after the addresses. -/
structure Translated (store : Nat → UInt8) (s : MainState) (addresses : List Int32) : Prop where
  memory : Loaded store s.memory (distinctPages addresses)
  previousPage : s.previousPage = lastPage addresses
  pageJump : s.pageJump = (jumps addresses).card
  faultCount : s.faultCount = (distinctPages addresses).card
  output : s.output = addresses.map fun address => store (position address)

theorem translated_init (store : Nat → UInt8) : Translated store mainInit [] where
  memory := loaded_init store
  previousPage := rfl
  pageJump := rfl
  faultCount := rfl
  output := rfl

section Step

variable {s : MainState} {addresses : List Int32}

/-- By the time the page is looked up, `previous_page` is the page, whether it jumped or not. -/
theorem Translated.jump (h : Translated store s addresses) (address : Int32) :
    (if s.previousPage ≠ getPageNumber address
      then { s with previousPage := getPageNumber address, pageJump := s.pageJump + 1 } else s)
      = { s with
          previousPage := page address, pageJump := (jumps (addresses ++ [address])).card } := by
  have hcard := card_jumps_append addresses address
  rw [getPageNumber_eq, h.previousPage]
  by_cases hne : lastPage addresses ≠ page address
  · rw [if_pos hne] at hcard ⊢
    rw [hcard, h.pageJump]
  · rw [if_neg hne] at hcard ⊢
    have heq : lastPage addresses = page address := not_not.mp hne
    rw [hcard, ← h.pageJump, ← heq, ← h.previousPage]

/-- The lookup tells whether the page has occurred before. -/
theorem Translated.isPageLoaded_eq (h : Translated store s addresses) (address : Int32) :
    isPageLoaded s.memory.pageTable (getPageNumber address)
      = if page address ∈ distinctPages addresses then (page address : Int) else notFound := by
  rw [getPageNumber_eq]
  exact h.memory.isPageLoaded_eq (page_lt address)

/-- An address of a page that is loaded. -/
theorem mainStep_hit (h : Translated store s addresses) {address : Int32}
    (hin : page address ∈ distinctPages addresses) :
    mainStep (some store) s address = some { s with
      previousPage := page address
      pageJump := (jumps (addresses ++ [address])).card
      output := s.output ++ [store (position address)] } := by
  have hne : (page address : Int) ≠ notFound := by
    unfold notFound
    omega
  have hfetch : fetchData s.memory (page address : Nat) (getPageOffset address)
      = some (store (position address)) := h.memory.fetchData_eq hin
  rw [mainStep]
  dsimp only
  rw [h.jump, h.isPageLoaded_eq, if_pos hin, if_neg hne]
  show (fetchData s.memory (page address : Nat) (getPageOffset address)).bind _ = _
  rw [hfetch]
  rfl

/-- A page fault. The table is written at `previous_page`, which is the page by now. -/
theorem mainStep_fault (h : Translated store s addresses) {address : Int32}
    (hin : page address ∉ distinctPages addresses) :
    ∃ memory, Loaded store memory (distinctPages (addresses ++ [address]))
      ∧ mainStep (some store) s address = some
        { memory
          previousPage := page address
          pageJump := (jumps (addresses ++ [address])).card
          faultCount := s.faultCount + 1
          output := s.output ++ [store (position address)] } := by
  have hloaded := h.memory.insert (page_lt address)
  rw [← distinctPages_append] at hloaded
  refine ⟨_, hloaded, ?_⟩
  -- after the load the page is there
  have hin' : page address ∈ distinctPages (addresses ++ [address]) := by
    rw [distinctPages_append]
    exact Finset.mem_insert_self _ _
  have hfetch := hloaded.fetchData_eq hin'
  rw [mainStep]
  dsimp only
  rw [h.jump, h.isPageLoaded_eq, if_neg hin, if_pos rfl, getPageNumber_eq]
  show (fetchData (updatePageTable (loadLogicalToPhysical (some store) s.memory
    (page address : Nat) (page address : Nat)).2 (page address : Nat) (page address : Nat))
      (page address : Nat) (getPageOffset address)).bind _ = _
  rw [hfetch]
  rfl

/-- **One address.** -/
theorem mainStep_spec (h : Translated store s addresses) (address : Int32) :
    ∃ s', mainStep (some store) s address = some s'
      ∧ Translated store s' (addresses ++ [address]) := by
  have houtput : s.output ++ [store (position address)]
      = (addresses ++ [address]).map fun address => store (position address) := by
    rw [h.output, List.map_append]
    rfl
  by_cases hin : page address ∈ distinctPages addresses
  · have hpages : distinctPages (addresses ++ [address]) = distinctPages addresses := by
      rw [distinctPages_append, Finset.insert_eq_of_mem hin]
    refine ⟨_, mainStep_hit h hin, ?_, (lastPage_append addresses address).symm, rfl, ?_, houtput⟩
    · rw [hpages]
      exact h.memory
    · rw [hpages]
      exact h.faultCount
  · obtain ⟨memory, hloaded, hstep⟩ := mainStep_fault h hin
    refine ⟨_, hstep, hloaded, (lastPage_append addresses address).symm, rfl, ?_, houtput⟩
    show s.faultCount + 1 = _
    rw [distinctPages_append, Finset.card_insert_of_notMem hin, h.faultCount]

end Step

/-- All the addresses. Induction from the end of the list. -/
theorem mainLoop_spec (store : Nat → UInt8) (addresses : List Int32) :
    ∃ s, mainLoop (some store) addresses = some s ∧ Translated store s addresses := by
  induction addresses using List.reverseRecOn with
  | nil => exact ⟨mainInit, rfl, translated_init store⟩
  | append_singleton addresses address ih =>
    obtain ⟨s, hrun, htranslated⟩ := ih
    obtain ⟨s', hstep, htranslated'⟩ := mainStep_spec htranslated address
    refine ⟨s', ?_, htranslated'⟩
    unfold mainLoop at hrun ⊢
    rw [List.foldlM_append, hrun]
    show (mainStep (some store) s address).bind some = _
    rw [hstep]
    rfl

/-- **The translator.** With a readable backing store the loop of `main` never reads through a
null frame, prints for each address the byte at its position, in order, counts as many faults
as there are different pages and as many page jumps as there are positions whose page differs
from that of the position before. -/
theorem mainLoop_correct (store : Nat → UInt8) (addresses : List Int32) :
    ∃ s, mainLoop (some store) addresses = some s
      ∧ s.output = addresses.map (fun address => store (address.toInt % 65536).toNat)
      ∧ s.faultCount
          = (addresses.map fun address => (address.toInt % 65536).toNat / 256).toFinset.card
      ∧ s.pageJump = ((Finset.range addresses.length).filter fun i =>
          i = 0 ∨ (addresses.map fun address => (address.toInt % 65536).toNat / 256)[i]?
            ≠ (addresses.map fun address => (address.toInt % 65536).toNat / 256)[i - 1]?).card := by
  obtain ⟨s, hrun, htranslated⟩ := mainLoop_spec store addresses
  exact ⟨s, hrun, htranslated.output, htranslated.faultCount, htranslated.pageJump⟩

end OsLab.Translator
