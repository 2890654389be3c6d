import OsLab.Sfs.Accounting

/-!
# OsLab.Sfs.RoundTrip — `copyin`, then `copyout`

`copyin` cuts its stream into blocks and `copyout` writes blocks until a read delivers
nothing. Neither `read` nor `copyout` looks at the size of the inode, so what comes back is a
number of whole blocks.

* **`HoldsChunk`**: a pointer to a used data block with given bytes; a later `write` takes
  another block (`HoldsChunk.write`).
* **`copyin_chunks`**: after a `copyin` of whole blocks, up to five, the pointers hold the
  chunks of the stream in order, and the pointers behind them are what they were.
* **`copyout_chunks`**: `copyout` delivers the chunks and goes on behind them.
* **`roundTrip_iff`** is the headline; `copyout_pads` is a file that comes back longer.
-/

namespace OsLab.Sfs

open Fallible State

variable {s s' : State} {n : Nat}

/-! ## Blocks of a stream

`copyin` reads a whole block into one buffer, over and over. As long as the blocks are whole nothing
is left in it of the block before. -/

theorem ofFn_fillBuffer {stream : List UInt8} (h : blockSize ≤ stream.length) (buffer : Block) :
    List.ofFn (fillBuffer buffer stream) = stream.take blockSize := by
  refine List.ext_getElem ?_ fun i hi hi' => ?_
  · rw [List.length_ofFn, List.length_take, Nat.min_eq_left h]
  · rw [List.length_ofFn] at hi
    have hin : i < stream.length := Nat.lt_of_lt_of_le hi h
    rw [List.getElem_ofFn, List.getElem_take]
    exact dif_pos hin

/-- The bytes of block `k` of a stream. -/
def chunk (stream : List UInt8) (k : Nat) : List UInt8 := (stream.drop (k * blockSize)).take blockSize

theorem chunk_append_drop (stream : List UInt8) (k : Nat) :
    chunk stream k ++ stream.drop ((k + 1) * blockSize) = stream.drop (k * blockSize) := by
  have hdrop : stream.drop ((k + 1) * blockSize) = (stream.drop (k * blockSize)).drop blockSize := by
    rw [List.drop_drop, Nat.succ_mul]
  rw [hdrop]
  exact List.take_append_drop blockSize _

/-! ## Pointers

What a pointer leads to is safe once the block is marked used: `write` takes free blocks only. -/

/-- The pointer names a used data block with these bytes. -/
structure HoldsChunk (s : State) (p : UInt32) (bytes : List UInt8) : Prop where
  isData : s.IsDataBlock p.toNat
  small : p.toNat < 4096
  used : s.isFree p.toNat = false
  content : List.ofFn (s.disk.blockAt p.toNat) = bytes

/-- It depends on the shape, on the mark and on the contents of the block. -/
theorem HoldsChunk.congr {p : UInt32} {bytes : List UInt8} (h : HoldsChunk s p bytes)
    (hshape : s'.shape = s.shape) (hused : s'.isFree p.toNat = false)
    (hdisk : s'.disk.blockAt p.toNat = s.disk.blockAt p.toNat) : HoldsChunk s' p bytes where
  isData := (isDataBlock_congr hshape _).mpr h.isData
  small := h.small
  used := hused
  content := by
    rw [hdisk]
    exact h.content

/-- A read marks the block it reads, which is marked already. -/
theorem HoldsChunk.mark {p q : UInt32} {bytes : List UInt8} (h : HoldsChunk s p bytes)
    (hq : s.IsDataBlock q.toNat → q.toNat < 4096) : HoldsChunk (s.mark q.toNat false) p bytes := by
  refine h.congr mark_shape ?_ rfl
  rw [mark_isFree hq, h.used, ite_self]

/-- A read delivers the bytes behind the pointer, whatever part of the block it asks for. -/
theorem HoldsChunk.read {inode : Inode} {k : Fin 5} {bytes : List UInt8}
    (h : HoldsChunk s (inode.direct k) bytes) (hm : s.Mounted) (hat : s.inodeAt n = some inode)
    {offset : Nat} (hk : offset / blockSize = k) (buffer : Block) (length : Nat) :
    s.read n buffer length offset = .ok (blockSize,
      s.disk.blockAt (inode.direct k).toNat, s.mark (inode.direct k).toNat false) := by
  have hpointer : directAt inode (offset / blockSize) = inode.direct k := by
    rw [hk]
    exact dif_pos k.isLt
  -- a data block is not block 0, and its number is small
  have hpos : 0 < asInt (inode.direct k) := by
    have hfirst : s.shape.firstDataBlock = s.shape.tableBlocks + 1 := hm.firstDataBlock
    have hge := h.isData.1
    have hlt := h.small
    rw [asInt, if_pos (by omega)]
    omega
  have hread : s.read n buffer length offset = _ :=
    read_block hm.diskSet hat (by rw [hpointer]; exact hpos)
      (by rw [hpointer]; exact .of_isDataBlock hm h.isData h.small) buffer length
  rw [hpointer] at hread
  exact hread

section Wrote

variable {inode : Inode} {index : Nat} {p q : UInt32} {data : Block} {bytes : List UInt8}

/-- A write takes a free block, so it spares the used ones. -/
theorem HoldsChunk.wrote (h : HoldsChunk s q bytes) (hp : p.toNat < 4096)
    (hdata : s.IsDataBlock p.toNat) (hfree : s.isFree p.toNat = true) :
    HoldsChunk (s.wrote n inode index p data) q bytes := by
  have hne : q.toNat ≠ p.toNat := fun heq => by
    have hused := h.used
    rw [heq, hfree] at hused
    cases hused
  have hsmall := h.small
  refine h.congr wrote_shape ?_ ?_
  · rw [wrote_isFree hp hdata, if_neg hne]
    exact h.used
  · exact Disk.blockAt_setBlock_of_ne hne (by unfold Disk.distinctBlocks; omega)
      (by unfold Disk.distinctBlocks; omega)

theorem holdsChunk_wrote (hp : p.toNat < 4096) (hdata : s.IsDataBlock p.toNat) :
    HoldsChunk (s.wrote n inode index p data) p (List.ofFn data) where
  isData := (isDataBlock_congr wrote_shape _).mpr hdata
  small := hp
  used := by rw [wrote_isFree hp hdata, if_pos rfl]
  content := by
    show List.ofFn ((s.disk.setBlock p.toNat data).blockAt p.toNat) = _
    rw [Disk.blockAt_setBlock_self]

end Wrote

/-! ## Copying in

`copyin` leaves the pointers behind the file as they were, whatever they are: it ends where the
stream does. -/

/-- While `copyin` fills inode `n`, which had the pointers `old`: the pointers it has reached
hold the chunks of `c`. -/
structure Copied (c : List UInt8) (old : Fin 5 → UInt32) (n : Nat) (s : State) (offset : Nat)
    (stream : List UInt8) : Prop where
  mounted : s.Mounted
  aligned : offset % blockSize = 0
  within : offset ≤ c.length
  rest : stream = c.drop offset
  inode : ∃ inode, s.inodeAt n = some inode
    ∧ (∀ k : Fin 5, offset / blockSize ≤ k → inode.direct k = old k)
    ∧ ∀ k : Fin 5, (k : Nat) < offset / blockSize → HoldsChunk s (inode.direct k) (chunk c k)

variable {c : List UInt8} {old : Fin 5 → UInt32}

/-- **One round** writes the next block. -/
theorem Copied.round (hwhole : c.length % blockSize = 0) {buffer : Block} {offset : Nat}
    {stream : List UInt8} (h : Copied c old n s offset stream) (hne : stream ≠ [])
    (hindex : offset / blockSize < pointersPerInode)
    (hwrite : s.write n (fillBuffer buffer stream) (min blockSize stream.length) offset
      = .ok (blockSize, s')) :
    Copied c old n s' (offset + min blockSize stream.length) (stream.drop blockSize) := by
  obtain ⟨inode, hat, hbehind, hbefore⟩ := h.inode
  have haligned := h.aligned
  have hwithin := h.within
  -- what is left is a number of whole blocks
  have hlength : stream.length = c.length - offset := by rw [h.rest, List.length_drop]
  have hpos : 0 < stream.length := List.length_pos_iff.mpr hne
  have hblock : blockSize ≤ stream.length := by
    unfold blockSize at *
    omega
  rw [Nat.min_eq_left hblock] at hwrite ⊢
  have hnext : (offset + blockSize) / blockSize = offset / blockSize + 1 := by
    unfold blockSize
    omega
  rcases of_write h.mounted hwrite with
    ⟨p, inode', -, hdata, hlt, hfree, -, hat', -, hs'⟩ | ⟨hout, -, -⟩
  · rw [hat] at hat'
    cases hat'
    subst hs'
    refine ⟨h.mounted.of_shape wrote_shape, ?_, ?_, ?_, _, setINode_inodeAt_self (lt_of_inodeAt hat),
      fun k hk => ?_, fun k hk => ?_⟩
    · unfold blockSize at *
      omega
    · omega
    · rw [h.rest, List.drop_drop]
    · -- a pointer behind the block just written
      rw [hnext] at hk
      have hother : ¬ (k : Nat) = offset / blockSize := by omega
      show (if (k : Nat) = offset / blockSize then p else inode.direct k) = old k
      rw [if_neg hother]
      exact hbehind k (by omega)
    · rw [hnext] at hk
      show HoldsChunk _ (if (k : Nat) = offset / blockSize then p else inode.direct k) _
      by_cases hself : (k : Nat) = offset / blockSize
      · rw [if_pos hself]
        have hbytes : chunk c k = List.ofFn (fillBuffer buffer stream) := by
          have hoffset : (k : Nat) * blockSize = offset := by
            rw [hself]
            unfold blockSize at *
            omega
          rw [ofFn_fillBuffer hblock, chunk, hoffset, ← h.rest]
        rw [hbytes]
        exact holdsChunk_wrote hlt hdata
      · rw [if_neg hself]
        exact (hbefore k (by omega)).wrote hlt hdata hfree
  · omega

/-- **A `copyin` of whole blocks**, up to five, that reports success. -/
theorem copyin_chunks (hm : s.Mounted) (hwhole : c.length % blockSize = 0)
    (hfits : c.length ≤ pointersPerInode * blockSize) {printed : List Message}
    (h : doCopyin s (some c) = .ok (n, printed, s')) (hsuccess : Message.copyinFailed ∉ printed) :
    ∃ old inode, s.getNextFreeINode = .ok (some (n, old)) ∧ s'.Mounted ∧ s'.inodeAt n = some inode
      ∧ (∀ k : Fin 5, c.length / blockSize ≤ k → inode.direct k = old.direct k)
      ∧ ∀ k : Fin 5, (k : Nat) < c.length / blockSize →
        HoldsChunk s' (inode.direct k) (chunk c k) := by
  rcases of_doCopyin hm h with
    ⟨old, hat, -, hnext, ⟨-, hfailed⟩ | ⟨stream, offset, more, s₁, hsource, hloop, hsize, -⟩⟩
      | ⟨-, hfailed, -⟩
  · exact absurd hfailed hsuccess
  · cases hsource
    have hstart : Copied c old.direct n (s.created n old) 0 c :=
      ⟨hm.of_shape created_shape, rfl, Nat.zero_le _, rfl, _, created_inodeAt_self hat,
        fun k _ => rfl, fun k hk => absurd hk (Nat.not_lt_zero _)⟩
    obtain ⟨rest, hcopied, hend⟩ := copyinLoop_rule (Q := Copied c old.direct n)
      (fun hcopied => hcopied.mounted)
      (fun hcopied hne hindex hwrite => hcopied.round hwhole hne hindex hwrite) c hstart hloop
    -- five blocks hold all of `c`, so the stream was read to its end
    have hall : offset = c.length := by
      have hwithin := hcopied.within
      have hlength : rest.length = c.length - offset := by rw [hcopied.rest, List.length_drop]
      rcases hend with ⟨rfl, -⟩ | ⟨hne, hindex, -⟩
      · rw [List.length_nil] at hlength
        omega
      · have hpos := List.length_pos_iff.mpr hne
        unfold blockSize pointersPerInode at *
        omega
    -- the offset is the length of `c`
    subst hall
    obtain ⟨inode, hat₁, hbehind, hbefore⟩ := hcopied.inode
    obtain ⟨inode', hat', rfl⟩ := of_updateSize hsize
    rw [hat₁] at hat'
    cases hat'
    refine ⟨old, _, hnext, hcopied.mounted.of_shape setINode_shape,
      setINode_inodeAt_self (lt_of_inodeAt hat₁), hbehind, fun k hk => ?_⟩
    · exact (hbefore k hk).congr setINode_shape (hbefore k hk).used rfl
  · exact absurd hfailed hsuccess

/-! ## Copying out

`copyout` goes on until a read gives nothing. It comes to the end of what was copied in and takes
the pointer behind it for one more block, if that is positive. -/

theorem copyoutLoop_step {buffer buffer' : Block} {offset : Nat}
    (hread : s.read n buffer blockSize offset = .ok (blockSize, buffer', s')) :
    copyoutLoop n s buffer offset = (do
      let (written, offset, s) ← copyoutLoop n s' buffer' (offset + blockSize)
      .ok (List.ofFn buffer' ++ written, offset, s)) := by
  have htake : (List.ofFn buffer').take blockSize = List.ofFn buffer' :=
    List.take_of_length_le (by rw [List.length_ofFn])
  rw [copyoutLoop]
  split
  · next e he =>
    rw [hread] at he
    cases he
  · next total buffer₁ s₁ he =>
    rw [hread] at he
    cases he
    rw [dif_neg (by decide), htake]

theorem copyoutLoop_done {buffer buffer' : Block} {offset : Nat}
    (hread : s.read n buffer blockSize offset = .ok (0, buffer', s')) :
    copyoutLoop n s buffer offset = .ok ([], offset, s') := by
  rw [copyoutLoop]
  split
  · next e he =>
    rw [hread] at he
    cases he
  · next total buffer₁ s₁ he =>
    rw [hread] at he
    cases he
    rw [dif_pos rfl]

/-- The pointers of inode `n` hold the first `q` chunks of `c`. -/
structure Readable (c : List UInt8) (inode : Inode) (n q : Nat) (s : State) : Prop where
  mounted : s.Mounted
  found : s.inodeAt n = some inode
  chunks : ∀ k : Fin 5, (k : Nat) < q → HoldsChunk s (inode.direct k) (chunk c k)

variable {inode : Inode}

/-- A pointer that holds a chunk is read to the end of its block. -/
theorem read_chunk {q : Nat} (h : Readable c inode n q s) {k : Fin 5} (hk : (k : Nat) < q)
    (buffer : Block) :
    s.read n buffer blockSize (k * blockSize) = .ok (blockSize,
      s.disk.blockAt (inode.direct k).toNat, s.mark (inode.direct k).toNat false) :=
  (h.chunks k hk).read h.mounted h.found (Nat.mul_div_cancel _ (by decide)) buffer blockSize

/-- **`copyout`** delivers the chunks, from block `k` on, and goes on behind them. -/
theorem copyout_chunks {q : Nat} (hlength : c.length = q * blockSize) (hq : q ≤ pointersPerInode)
    (left : Nat) :
    ∀ {k : Nat} {s : State} (buffer : Block), k + left = q → Readable c inode n q s →
      ∃ s₁ buffer₁, Readable c inode n q s₁
        ∧ copyoutLoop n s buffer (k * blockSize) = (do
          let (written, offset, s) ← copyoutLoop n s₁ buffer₁ (q * blockSize)
          .ok (c.drop (k * blockSize) ++ written, offset, s)) := by
  induction left with
  | zero =>
    intro k s buffer hk h
    obtain rfl : k = q := hk
    refine ⟨s, buffer, h, ?_⟩
    rw [List.drop_eq_nil_of_le (Nat.le_of_eq hlength)]
    cases copyoutLoop n s buffer (k * blockSize) <;> rfl
  | succ left ih =>
    intro k s buffer hk h
    have hk5 : k < 5 := by
      unfold pointersPerInode at hq
      omega
    have hread := read_chunk h (k := ⟨k, hk5⟩) (by show k < q; omega) buffer
    have hchunk := h.chunks ⟨k, hk5⟩ (by show k < q; omega)
    have hmarked : Readable c inode n q (s.mark (inode.direct ⟨k, hk5⟩).toNat false) :=
      ⟨h.mounted, h.found, fun k' hk' => (h.chunks k' hk').mark fun _ => hchunk.small⟩
    -- reading a block marks it used, which it is already
    obtain ⟨s₁, buffer₁, h₁, hloop⟩ := ih (k := k + 1) _ (by omega) hmarked
    refine ⟨s₁, buffer₁, h₁, ?_⟩
    rw [copyoutLoop_step hread, ← Nat.succ_mul, hloop, hchunk.content]
    cases copyoutLoop n s₁ buffer₁ (q * blockSize) with
    | error _ => rfl
    | ok r =>
      show Except.ok (chunk c k ++ (c.drop ((k + 1) * blockSize) ++ r.1), r.2.1, r.2.2) = _
      rw [← List.append_assoc, chunk_append_drop]
      rfl

/-- The loop ends at once exactly if the pointer it comes to is not positive. -/
theorem copyoutLoop_nil_iff (hat : s.inodeAt n = some inode) (buffer : Block) (offset : Nat) :
    (∃ offset' s', copyoutLoop n s buffer offset = .ok ([], offset', s'))
      ↔ asInt (directAt inode (offset / blockSize)) ≤ 0 := by
  refine ⟨fun ⟨offset', s', hloop⟩ => ?_, fun hend => ?_⟩
  · by_contra hpos
    -- a positive pointer is read, so the loop throws or delivers a block
    cases hread : s.read n buffer blockSize offset with
    | error e =>
      rw [copyoutLoop] at hloop
      split at hloop
      · cases hloop
      · next total buffer' s₁ he =>
        rw [hread] at he
        cases he
    | ok r =>
      obtain ⟨total, buffer', s₁⟩ := r
      obtain ⟨inode', hat', hcase⟩ := of_read hread
      rw [hat] at hat'
      cases hat'
      rcases hcase with ⟨-, -, rfl, -⟩ | ⟨hnot, -⟩
      · -- a block was read, and written out
        rw [copyoutLoop_step hread] at hloop
        obtain ⟨⟨rest, offset₁, s₂⟩, -, hwritten⟩ := of_bind_eq_ok hloop
        generalize hbytes : List.ofFn buffer' = bytes at hwritten
        dsimp only at hwritten
        rw [Except.ok.injEq, Prod.mk.injEq] at hwritten
        have hnil : bytes = [] := (List.append_eq_nil_iff.mp hwritten.1).1
        have hlength := congrArg List.length (hbytes.trans hnil)
        rw [List.length_ofFn, List.length_nil] at hlength
        -- a block has 4096 bytes
        omega
      · exact hnot ⟨Int.not_le.mp hpos, directAt_of_pos (Int.not_le.mp hpos)⟩
  · exact ⟨offset, s, copyoutLoop_done (read_nothing hat hend buffer blockSize)⟩

/-! ## The headline

Two things stand between what goes in and what comes out. The last block is filled up, and the
pointer behind the file is not cleared. -/

/-- The condition: whole blocks, five at most, and behind them a pointer that ends the file in
the inode `create` is about to take. -/
def State.Fits (s : State) (c : List UInt8) : Prop :=
  c.length % blockSize = 0 ∧ c.length ≤ pointersPerInode * blockSize
    ∧ ∀ n inode, s.getNextFreeINode = .ok (some (n, inode)) →
      asInt (directAt inode (c.length / blockSize)) ≤ 0

/-- What is delivered is what the loop gives. -/
theorem doCopyout_iff (hm : s.Mounted) {failed : Message} :
    (∃ printed s', doCopyout s n true failed = .ok (c, printed, s'))
      ↔ ∃ offset s', copyoutLoop n s zeroBuffer 0 = .ok (c, offset, s') := by
  unfold doCopyout copyout
  rw [if_pos rfl, if_pos (Mounted.isDiskMounted hm)]
  cases copyoutLoop n s zeroBuffer 0 with
  | error e => simp
  | ok r =>
    obtain ⟨written, offset, s'⟩ := r
    simp

/-- **Headline.** In every reachable mounted state: after a `copyin` of `c` that reports
success, a `copyout` of the new inode gives back exactly `c` if and only if `c` fits. -/
theorem roundTrip_iff {blocks : UInt32} {image : Bytes.Image} {commands : List Command}
    (hreach : execAll (State.start blocks image) commands = .ok s)
    (hmounted : s.isDiskMounted = true) {printed : List Message}
    (hcopyin : doCopyin s (some c) = .ok (n, printed, s'))
    (hsuccess : Message.copyinFailed ∉ printed) :
    (∃ printed' s'', doCopyout s' n true .copyoutFailed = .ok (c, printed', s'')) ↔ s.Fits c := by
  have hm := reachable_mounted hreach hmounted
  have hm' := hm.of_shape (doCopyin_shape hm hcopyin)
  rw [doCopyout_iff hm']
  by_cases hshort : c.length % blockSize = 0 ∧ c.length ≤ pointersPerInode * blockSize
  · obtain ⟨hwhole, hle⟩ := hshort
    obtain ⟨old, inode, hnext, -, hat, hbehind, hchunks⟩ :=
      copyin_chunks hm hwhole hle hcopyin hsuccess
    have hlength : c.length = c.length / blockSize * blockSize := by
      unfold blockSize at *
      omega
    have hq : c.length / blockSize ≤ pointersPerInode := by
      unfold blockSize pointersPerInode at *
      omega
    obtain ⟨s₁, buffer₁, h₁, hloop⟩ := copyout_chunks hlength hq (c.length / blockSize)
      zeroBuffer (Nat.zero_add _) ⟨hm', hat, hchunks⟩
    rw [Nat.zero_mul, List.drop_zero] at hloop
    -- the pointer behind the file is the one the inode had before
    have hpointer : directAt inode (c.length / blockSize) = directAt old (c.length / blockSize) := by
      unfold directAt
      split
      · next hlt => exact hbehind ⟨_, hlt⟩ (Nat.le_refl _)
      · rfl
    have hfits : s.Fits c ↔ asInt (directAt inode (c.length / blockSize)) ≤ 0 := by
      rw [hpointer]
      refine ⟨fun hfits => hfits.2.2 n old hnext, fun hend => ⟨hwhole, hle, fun n' old' hnext' => ?_⟩⟩
      rw [hnext] at hnext'
      cases hnext'
      exact hend
    have hindex : c.length / blockSize * blockSize / blockSize = c.length / blockSize :=
      Nat.mul_div_cancel _ (by decide)
    have hnil := copyoutLoop_nil_iff h₁.found buffer₁ (c.length / blockSize * blockSize)
    rw [hindex] at hnil
    rw [hfits, ← hnil, hloop]
    cases copyoutLoop n s₁ buffer₁ (c.length / blockSize * blockSize) with
    | error e => simp
    | ok r =>
      obtain ⟨written, offset, s₂⟩ := r
      simp
  · -- `copyout` only ever delivers up to five whole blocks
    refine ⟨fun ⟨offset, s'', hloop⟩ => ?_, fun hfits => absurd ⟨hfits.1, hfits.2.1⟩ hshort⟩
    obtain ⟨-, hwhole, hle⟩ := copyoutLoop_rule (P := fun _ => True) (fun _ _ => trivial) _ rfl rfl
      trivial hloop
    exact absurd ⟨hwhole, hle⟩ hshort

/-- A file of one whole block comes back. -/
theorem roundTrip_one_block : ∃ s printed s', execAll (State.start 4 (smallImage 0)) [.mount] = .ok s
    ∧ doCopyin s (some (List.replicate 4096 65)) = .ok (0, printed, s')
    ∧ ∃ printed' s'', doCopyout s' 0 true .copyoutFailed
      = .ok (List.replicate 4096 65, printed', s'') := by
  have hlength : (List.replicate 4096 (65 : UInt8)).length = 4096 := List.length_replicate
  have hclean : CleanImage (State.start 4 (smallImage 0)).disk :=
    smallDisk_clean (by decide) (by decide) 0
  obtain ⟨s, printed, s', hmount, hismount, hcopyin, hsuccess⟩ :=
    smallDisk_copyin 4 (by decide) (by decide) (List.replicate 4096 65)
      (List.ne_nil_of_length_pos (by omega)) (Nat.le_of_eq hlength)
  have hreach : execAll (State.start 4 (smallImage 0)) [.mount] = .ok s := by
    simp only [execAll, exec, doMount, hmount, ok_bind]
  have hmounted := Mounted.isDiskMounted hismount.mounted
  have hempty := (hismount.accounted hclean).empty
  have hfits : s.Fits (List.replicate 4096 65) := by
    refine ⟨by rw [hlength]; rfl, by rw [hlength]; decide, fun n inode hnext => ?_⟩
    obtain ⟨r, hr, hsome, -⟩ := of_getNextFreeINode hismount.mounted
    rw [hr] at hnext
    cases hnext
    obtain ⟨hat, hvalid, -⟩ := hsome n inode rfl
    -- on a clean image the inode taken has no pointers
    have hzero : directAt inode ((List.replicate 4096 (65 : UInt8)).length / blockSize) = 0 := by
      rw [hlength]
      exact (hempty n inode hat hvalid).2 1
    rw [hzero]
    decide
  exact ⟨s, printed, s', hreach, hcopyin, (roundTrip_iff hreach hmounted hcopyin hsuccess).mpr hfits⟩

/-- On separate slots `copyout` returns. -/
theorem copyoutLoop_ok (left : Nat) :
    ∀ {s : State} (buffer : Block) {offset : Nat}, pointersPerInode - offset / blockSize = left →
      s.Separate → n < s.shape.tableBlocks * inodesPerBlock →
      ∃ r, copyoutLoop n s buffer offset = .ok r := by
  induction left using Nat.strong_induction_on with
  | _ left ih =>
    intro s buffer offset hleft hs hn
    obtain ⟨inode, hat⟩ := inodeAt_eq_some_of_lt hn
    obtain ⟨⟨total, buffer', s₁⟩, hread⟩ := hs.read_ok hat buffer blockSize offset
    by_cases hzero : total = 0
    · subst hzero
      exact ⟨_, copyoutLoop_done hread⟩
    · obtain ⟨hindex, rfl⟩ := of_read_pos hread hzero
      have hafter := (read_sameSlots hs hread).afterCall hs none
      have hnext : pointersPerInode - (offset + blockSize) / blockSize < left := by
        unfold blockSize at *
        omega
      obtain ⟨r, hr⟩ := ih _ hnext buffer' rfl hafter.separate (hafter.shape ▸ hn)
      rw [copyoutLoop_step hread, hr]
      exact ⟨_, rfl⟩

/-- **The defect**: a file of one byte comes back as a block. -/
theorem copyout_pads : ∃ s printed s' written printed' s'',
    execAll (State.start 4 (smallImage 0)) [.mount] = .ok s ∧ s.isDiskMounted = true
      ∧ doCopyin s (some [65]) = .ok (0, printed, s') ∧ Message.copyinFailed ∉ printed
      ∧ doCopyout s' 0 true .copyoutFailed = .ok (written, printed', s'') ∧ written ≠ [65] := by
  have hclean : CleanImage (State.start 4 (smallImage 0)).disk :=
    smallDisk_clean (by decide) (by decide) 0
  obtain ⟨s, printed, s', hmount, hismount, hcopyin, hsuccess⟩ :=
    smallDisk_copyin 4 (by decide) (by decide) [65] (by decide) (by decide)
  have hreach : execAll (State.start 4 (smallImage 0)) [.mount] = .ok s := by
    simp only [execAll, exec, doMount, hmount, ok_bind]
  have hs' := doCopyin_accounted (hismount.accounted hclean) hcopyin
  have hn : 0 < s'.shape.tableBlocks * inodesPerBlock := by
    rw [doCopyin_shape hismount.mounted hcopyin, (smallDisk_mounted hismount).1]
    decide
  obtain ⟨⟨written, offset, s''⟩, hloop⟩ : ∃ r, copyoutLoop 0 s' zeroBuffer 0 = .ok r :=
    copyoutLoop_ok _ zeroBuffer rfl hs'.separate hn
  obtain ⟨-, hwhole, -⟩ := copyoutLoop_rule (P := fun _ => True) (fun _ _ => trivial) _ rfl rfl
    trivial hloop
  obtain ⟨printed', s'', hcopyout⟩ := (doCopyout_iff hs'.mounted).mpr ⟨offset, s'', hloop⟩
  refine ⟨s, printed, s', written, printed', s'', hreach, Mounted.isDiskMounted hismount.mounted,
    hcopyin, hsuccess, hcopyout, fun heq => ?_⟩
  rw [heq] at hwhole
  cases hwhole

end OsLab.Sfs
