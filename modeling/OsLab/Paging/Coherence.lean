import OsLab.Paging.History

/-!
# OsLab.Paging.Coherence — the TLB, the frames and the backing store

What the TLB promises about physical memory, for FIFO and LRU and whatever the loads do.
A load may fail at any round, and a failed load leaves the history out of step with the TLB;
the frame a later round picks may then be `-1`, or that of a page which is no longer listed.
None of this reaches the frames:

* **`swapPage_frame`**: the frame index a swap function returns is that of the page, that of
  an empty frame, or what the TLB says about some other page; in each case `-1` or a frame.
* **`caches_afterLoad`**: the load and the TLB update act on the same frame or not at all.
* **`runTo_coherent`**: the headline.
-/

namespace OsLab.Paging

open DoublyLinked Fallible PageReplacement

/-- What is promised about the TLB and the frames. -/
structure Coherent (store : Nat → UInt8) (m : Memory) : Prop where
  distinct : ∀ i j : Fin numberOfFrames,
    (m.tlb.get i).page = (m.tlb.get j).page → (m.tlb.get i).page ≠ emptyMark → i = j
  entry : ∀ i : Fin numberOfFrames, m.tlb.get i = { page := emptyMark, frame := emptyMark }
    ∨ ∃ p : Int, 0 ≤ p ∧ p ≤ 255 ∧ m.tlb.get i = { page := p, frame := (i : Nat) }
  frame : ∀ i : Fin numberOfFrames, (m.tlb.get i).page ≠ emptyMark →
    m.physicalMemory.get i = some (pageOf store (m.tlb.get i).page)
  fetch : ∀ address : Int32, isPageLoaded m.tlb (getPageNumber address) ≠ notFound →
    fetchData m (isPageLoaded m.tlb (getPageNumber address)) (getPageOffset address)
      = some (store (address.toInt % 65536).toNat)

/-- The frames that the TLB shows, with their bytes loaded from the store. -/
structure Caches (store : Nat → UInt8) (m : Memory) (frames : Frames numberOfFrames Int) :
    Prop where
  tlb : m.tlb = tlbOf frames
  injective : frames.Injective
  range : ∀ ⦃i p⦄, frames i = some p → 0 ≤ p ∧ p < numberOfPages
  bytes : ∀ ⦃i p⦄, frames i = some p → m.physicalMemory.get i = some (pageOf store p)

variable {store : Nat → UInt8} {m : Memory} {frames : Frames numberOfFrames Int}

/-- The TLB shows nothing, so there is nothing to keep. -/
theorem caches_init (store : Nat → UInt8) (m : Memory) :
    Caches store (initPhysicalMemory m) fun _ => none where
  tlb := tlbOf_init m
  injective := fun _ _ _ h => by cases h
  range := fun _ _ h => by cases h
  bytes := fun _ _ h => by cases h

/-! ## The three routes to a frame

A swap function returns the frame it was given, an empty frame, or the frame in which
`is_PageLoaded` finds the page that it has taken off the history. Whichever it is, the TLB and the
frames have not been touched. -/

/-- Whatever page it is asked for, `is_PageLoaded` returns a frame of the TLB or `-1`. -/
theorem isPageLoaded_tlbOf_cases (frames : Frames numberOfFrames Int) (page : Int) :
    isPageLoaded (tlbOf frames) page = notFound
      ∨ ∃ i : Fin numberOfFrames, isPageLoaded (tlbOf frames) page = (i : Nat) := by
  unfold isPageLoaded
  cases firstIndex (tlbOf frames) page with
  | none => exact Or.inl rfl
  | some i =>
    show (tlbOf frames)[i].frame = notFound ∨ ∃ j : Fin numberOfFrames, (tlbOf frames)[i].frame = _
    rw [getElem_tlbOf]
    cases frames i with
    | none => exact Or.inl rfl
    | some p => exact Or.inr ⟨i, rfl⟩

/-- `findEmptyFrame` returns the index of a frame or `-1`. -/
theorem findEmptyFrame_cases (tlb : Vector TlbEntry numberOfFrames) :
    findEmptyFrame tlb = notFound ∨ ∃ i : Fin numberOfFrames, findEmptyFrame tlb = (i : Nat) := by
  unfold findEmptyFrame
  cases firstIndex tlb notFound with
  | none => exact Or.inl rfl
  | some i => exact Or.inr ⟨i, rfl⟩

/-- `replaceTail` only changes the history, and picks an empty frame or the one `is_PageLoaded`
names for the page popped. -/
theorem of_replaceTail {page frameIndex : Int} {m' : Memory}
    (h : replaceTail m page = .ok (frameIndex, m')) :
    m'.tlb = m.tlb ∧ m'.physicalMemory = m.physicalMemory
      ∧ (frameIndex = findEmptyFrame m.tlb ∨ ∃ p, frameIndex = isPageLoaded m.tlb p) := by
  unfold replaceTail at h
  dsimp only at h
  split at h
  · obtain ⟨⟨swapPage, l₁⟩, -, h⟩ := of_bind_eq_ok h
    dsimp only at h
    obtain ⟨l₂, -, h⟩ := of_bind_eq_ok h
    cases h
    exact ⟨rfl, rfl, Or.inr ⟨swapPage, rfl⟩⟩
  · obtain ⟨l₁, -, h⟩ := of_bind_eq_ok h
    cases h
    exact ⟨rfl, rfl, Or.inl rfl⟩

/-- **The frame of a round.** FIFO and LRU leave the TLB and the frames alone; a frame that was
found stays, and otherwise the index is `-1` or some frame. -/
theorem swapPage_frame {env : Env} {addressList : List Int32} {alg : Algorithm} {PC : Nat}
    {frameIndexParam page frameIndex : Int} {m' : Memory}
    (halg : alg = .fifo ∨ alg = .lru) (hm : m.tlb = tlbOf frames)
    (h : swapPage env addressList alg m PC frameIndexParam page = .ok (frameIndex, m')) :
    m'.tlb = m.tlb ∧ m'.physicalMemory = m.physicalMemory
      ∧ (frameIndexParam ≠ notFound → frameIndex = frameIndexParam)
      ∧ (frameIndexParam = notFound →
          frameIndex = notFound ∨ ∃ i : Fin numberOfFrames, frameIndex = (i : Nat)) := by
  -- FIFO and LRU do the same on a page that is not loaded
  have hmiss (hreplace : replaceTail m page = .ok (frameIndex, m')) :
      m'.tlb = m.tlb ∧ m'.physicalMemory = m.physicalMemory
        ∧ (frameIndex = notFound ∨ ∃ i : Fin numberOfFrames, frameIndex = (i : Nat)) := by
    obtain ⟨htlb, hphysical, hroute⟩ := of_replaceTail hreplace
    refine ⟨htlb, hphysical, ?_⟩
    rcases hroute with hempty | ⟨p, hvictim⟩
    · rw [hempty]
      exact findEmptyFrame_cases m.tlb
    · rw [hvictim, hm]
      exact isPageLoaded_tlbOf_cases frames p
  rcases halg with rfl | rfl
  · simp only [swapPage, swapPageFifo] at h
    split at h
    · next heq =>
      obtain ⟨htlb, hphysical, hframe⟩ := hmiss h
      exact ⟨htlb, hphysical, fun hne => absurd heq hne, fun _ => hframe⟩
    · next hne =>
      cases h
      exact ⟨rfl, rfl, fun _ => rfl, fun heq => absurd heq hne⟩
  · simp only [swapPage, swapPageLru] at h
    split at h
    · next heq =>
      obtain ⟨htlb, hphysical, hframe⟩ := hmiss h
      exact ⟨htlb, hphysical, fun hne => absurd heq hne, fun _ => hframe⟩
    · next hne =>
      obtain ⟨history, -, h⟩ := of_bind_eq_ok h
      cases h
      exact ⟨rfl, rfl, fun _ => rfl, fun heq => absurd heq hne⟩

/-! ## The load

The bytes of the page and the entry of the TLB are written together, and neither is when the backing
store does not open or the frame index is `-1`. -/

theorem Caches.congr (h : Caches store m frames) {m' : Memory} (htlb : m'.tlb = m.tlb)
    (hphysical : m'.physicalMemory = m.physicalMemory) : Caches store m' frames where
  tlb := htlb.trans h.tlb
  injective := h.injective
  range := h.range
  bytes := fun i p hi => by rw [hphysical]; exact h.bytes hi

/-- A page goes to a frame only if no other frame has it. -/
theorem Caches.afterLoad (h : Caches store m frames) {page : Int} (hpage : 0 ≤ page)
    (hlt : page < numberOfPages) {i : Fin numberOfFrames}
    (hinj : (frames.load i page).Injective) :
    Caches store (afterLoad store true m page (i : Nat)) (frames.load i page) := by
  obtain ⟨htlb, hphysical, -⟩ := afterLoad_loaded h.tlb store hpage hlt i
  refine ⟨htlb, hinj, fun j p hj => ?_, fun j p hj => ?_⟩
  · by_cases hji : j = i
    · subst hji
      rw [Frames.load_self] at hj
      cases hj
      exact ⟨hpage, hlt⟩
    · rw [Frames.load_of_ne hji] at hj
      exact h.range hj
  · rw [hphysical]
    show (m.physicalMemory.setIfInBounds i (some (pageOf store page)))[(j : Nat)] = _
    -- the frame loaded has the bytes of its page, the others what they had
    rw [Vector.getElem_setIfInBounds]
    by_cases hji : j = i
    · subst hji
      rw [Frames.load_self] at hj
      cases hj
      rw [if_pos rfl]
    · rw [Frames.load_of_ne hji] at hj
      rw [if_neg fun heq => hji (Fin.ext heq).symm]
      exact h.bytes hj

/-- **The load and the update agree.** Whether the store opens or not, and whichever frame was
picked for a page that was not loaded. -/
theorem caches_afterLoad (h : Caches store m frames) (opens : Bool) {page : Int} (hpage : 0 ≤ page)
    (hlt : page < numberOfPages) {frameIndex : Int}
    (hframe : frameIndex = notFound ∨ ∃ i : Fin numberOfFrames, frameIndex = (i : Nat)
      ∧ (frames i = some page ∨ page ∉ frames.resident)) :
    ∃ frames', Caches store (afterLoad store opens m page frameIndex) frames' := by
  rcases hframe with rfl | ⟨i, rfl, hwhere⟩
  · rw [afterLoad_notFound]
    exact ⟨frames, h⟩
  · cases opens with
    | false =>
      rw [afterLoad_failed]
      exact ⟨frames, h⟩
    | true =>
      refine ⟨_, h.afterLoad hpage hlt ?_⟩
      rcases hwhere with hhit | hmiss
      · rw [Frames.load_eq_self hhit]
        exact h.injective
      · exact h.injective.load hmiss i

/-! ## Runs

A round is a swap and a load. After each the frames that the TLB shows have their bytes from the
store. -/

theorem runStep_caches {env : Env} {addressList : List Int32} {alg : Algorithm} {r r' : RunState}
    {PC : Nat} {address : Int32} (halg : alg = .fifo ∨ alg = .lru)
    (h : Caches env.store r.memory frames)
    (hstep : runStep env addressList alg r PC address = .ok r') :
    ∃ frames', Caches env.store r'.memory frames' := by
  have hpage := getPageNumber_nonneg address
  obtain ⟨frameIndex, m, hswap, hmemory⟩ := of_runStep hstep
  obtain ⟨htlb, hphysical, hhit, hmiss⟩ := swapPage_frame halg h.tlb hswap
  rw [hmemory]
  apply caches_afterLoad (h.congr htlb hphysical) _ hpage (getPageNumber_lt address)
  have hloaded : isPageLoaded r.memory.tlb (getPageNumber address)
      = (frames.frameOf? (getPageNumber address)).elim notFound fun i => ((i : Nat) : Int) := by
    rw [h.tlb, isPageLoaded_tlbOf hpage]
  cases hfind : frames.frameOf? (getPageNumber address) with
  | none =>
    -- a fault: the page is in no frame, so it may go to any
    rw [hfind] at hloaded
    rcases hmiss hloaded with hnone | ⟨i, hi⟩
    · exact Or.inl hnone
    · exact Or.inr ⟨i, hi, Or.inr (Frames.frameOf?_eq_none_iff.mp hfind)⟩
  | some i =>
    -- a hit: the page is loaded again into the frame it is in
    rw [hfind] at hloaded
    have hfound : isPageLoaded r.memory.tlb (getPageNumber address) = (i : Nat) := hloaded
    have hkeep := hhit (by rw [hfound]; exact index_ne_notFound i)
    exact Or.inr ⟨i, hkeep.trans hfound, Or.inl (Frames.frameOf?_some hfind)⟩

/-- Any number of rounds. Induction on it. -/
theorem runTo_caches {env : Env} {m : Memory} {addressList : List Int32} {alg : Algorithm}
    (halg : alg = .fifo ∨ alg = .lru) {n : Nat} {r : RunState}
    (hrun : runTo env m addressList alg n = .ok r) :
    ∃ frames, Caches env.store r.memory frames := by
  refine foldlM_keeps (P := fun r : RunState => ∃ frames, Caches env.store r.memory frames)
    (fun _ hcaches hround => ?_) ⟨_, caches_init env.store m⟩ hrun
  obtain ⟨frames, hcaches⟩ := hcaches
  exact runStep_caches halg hcaches hround

/-! ## What the promise says

`Coherent` speaks of addresses: if the page of an address is found in the TLB, `fetchData` gives the
byte of the store at that address. -/

/-- The byte at the offset of an address. -/
theorem Caches.fetchData_eq (h : Caches store m frames) {address : Int32} {i : Fin numberOfFrames}
    (hi : frames i = some (getPageNumber address)) :
    fetchData m (i : Nat) (getPageOffset address) = some (store (address.toInt % 65536).toNat) := by
  have hbytes := h.bytes hi
  have hoffset : (getPageOffset address).toNat < pageSize := by
    rw [getPageOffset_eq]
    exact PagedAddress.offset_lt address
  have hframe : m.physicalMemory[((i : Nat) : Int).toNat]?
      = some (some (pageOf store (getPageNumber address))) := by
    rw [Int.toNat_natCast, Vector.getElem?_eq_getElem i.isLt]
    exact congrArg some hbytes
  -- both indices are in range
  have hrange : ¬ (((i : Nat) : Int) < 0 ∨ getPageOffset address < 0) := by
    rw [getPageOffset_eq]
    omega
  rw [fetchData, if_neg hrange, hframe]
  show (pageOf store (getPageNumber address))[(getPageOffset address).toNat]? = _
  rw [Vector.getElem?_eq_getElem hoffset, pageOf, Vector.getElem_ofFn]
  show some (store ((getPageNumber address).toNat * 256 + (getPageOffset address).toNat)) = _
  rw [getPageNumber_eq, getPageOffset_eq]
  show some (store (PagedAddress.page address * 256 + PagedAddress.offset address)) = _
  rw [PagedAddress.position_eq]
  rfl

/-- Frames that have their bytes from the store are what was promised. -/
theorem Caches.coherent (h : Caches store m frames) : Coherent store m := by
  have hentry (i : Fin numberOfFrames) : m.tlb.get i = entryOf i (frames i) := by
    rw [h.tlb, get_tlbOf]
  -- an entry that is not empty shows the page of its frame
  have hshows (i : Fin numberOfFrames) (hne : (m.tlb.get i).page ≠ emptyMark) :
      frames i = some (m.tlb.get i).page := by
    rw [hentry] at hne ⊢
    cases hi : frames i with
    | none => rw [hi] at hne; exact absurd rfl hne
    | some p => rfl
  refine ⟨fun i j heq hne => ?_, fun i => ?_, fun i hne => h.bytes (hshows i hne),
    fun address hloaded => ?_⟩
  · have hi := hshows i hne
    have hj := hshows j (heq ▸ hne)
    rw [← heq] at hj
    exact h.injective hi hj
  · rw [hentry]
    cases hi : frames i with
    | none => exact Or.inl rfl
    | some p =>
      obtain ⟨hnonneg, hlt⟩ := h.range hi
      have hle : p ≤ 255 := Int.le_of_lt_add_one hlt
      exact Or.inr ⟨p, hnonneg, hle, rfl⟩
  · rw [h.tlb, isPageLoaded_tlbOf (getPageNumber_nonneg address)] at hloaded ⊢
    cases hi : frames.frameOf? (getPageNumber address) with
    | none => rw [hi] at hloaded; exact absurd rfl hloaded
    | some i => exact h.fetchData_eq (Frames.frameOf?_some hi)

/-- **Coherence.** For FIFO and LRU, whatever the history at the start and whichever loads fail:
in every state that `Run` reaches, no page is in two TLB entries, an entry is empty or shows a
page number in its own frame, the frame holds the page's bytes, and an address whose page is
resident fetches its byte. -/
theorem runTo_coherent (env : Env) (m : Memory) (addressList : List Int32) (alg : Algorithm)
    (halg : alg = .fifo ∨ alg = .lru) (n : Nat) (r : RunState)
    (hrun : runTo env m addressList alg n = .ok r) : Coherent env.store r.memory := by
  obtain ⟨frames, hcaches⟩ := runTo_caches halg hrun
  exact hcaches.coherent

/-- A backing store of zeros that does not open at one reference. -/
def lossyEnv (failed : Nat) : Env := { zeroEnv with opens := fun PC => PC != failed }

/-- Pages 1, 2, 1 under FIFO; the load of page 2 fails. -/
theorem runTo_coherent_three :
    ∃ r, runTo (lossyEnv 1) .fresh [0x100, 0x200, 0x1ff] .fifo 3 = .ok r
      ∧ Coherent (lossyEnv 1).store r.memory :=
  ⟨_, rfl, runTo_coherent (lossyEnv 1) .fresh [0x100, 0x200, 0x1ff] .fifo (Or.inl rfl) 3 _ rfl⟩

end OsLab.Paging
