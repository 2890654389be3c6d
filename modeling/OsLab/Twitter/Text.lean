import Mathlib.Data.List.GetD
import Mathlib.Data.List.TakeWhile
import OsLab.Twitter.Mailbox

/-!
# OsLab.Twitter.Text — from `FormatMsgOut` to `FormatMsgIn`

The text of a message on its way: `FormatMsgOut` converts it to wide characters into a buffer that
is used again and again, `CopyFrom` and `CopyTo` pass the buffer through the queue, and
`FormatMsgIn` prints it and converts back.

* **`CodePage`**: a single-byte code page, in which conversion is character by character.
* **`buffer_formatMsgOut`**: whatever the buffer held, it starts with the first 95 characters and
  a terminator.
* **`formatMsgIn_formatMsgOut`**: what arrives is the header and those characters.
-/

namespace OsLab.Twitter

open Fallible

/-! ## Code pages

Windows converts between bytes and wide characters by the code page of the machine. Of it only this
is used: bytes go to wide characters one by one and come back unchanged, and ASCII keeps its codes.
-/

/-- A single-byte code page (`CP_ACP`): every character converts by itself and back to itself,
ASCII by its code. -/
structure CodePage where
  toWide : UInt8 → UInt16
  toNarrow : UInt16 → UInt8
  toNarrow_toWide : ∀ ch, toNarrow (toWide ch) = ch
  toWide_ascii : ∀ ch : UInt8, ch.toNat < 128 → toWide ch = ch.toUInt16

namespace CodePage

variable (page : CodePage)

/-- Different bytes are different characters. -/
theorem toWide_inj {a b : UInt8} : page.toWide a = page.toWide b ↔ a = b :=
  ⟨fun h => by rw [← page.toNarrow_toWide a, h, page.toNarrow_toWide], congrArg _⟩

/-- Only the terminator becomes the terminator. -/
theorem toWide_eq_zero_iff {ch : UInt8} : page.toWide ch = 0 ↔ ch = 0 := by
  have hzero : page.toWide 0 = 0 := page.toWide_ascii 0 (by decide)
  exact ⟨fun h => page.toWide_inj.mp (h.trans hzero.symm), fun h => h ▸ hzero⟩

/-- `MultiByteToWideChar` converts a string so. -/
def wideText (text : List UInt8) : List UInt16 := text.map page.toWide

/-- `WideCharToMultiByte` converts a string so. -/
def narrowText (text : List UInt16) : List UInt8 := text.map page.toNarrow

@[simp] theorem narrowText_wideText (text : List UInt8) :
    page.narrowText (page.wideText text) = text := by
  rw [narrowText, wideText, List.map_map]
  exact (List.map_congr_left fun ch _ => page.toNarrow_toWide ch).trans (List.map_id text)

/-- A string without a terminator stays without one. -/
theorem zero_mem_wideText_iff {text : List UInt8} : 0 ∈ page.wideText text ↔ 0 ∈ text := by
  simp [wideText, page.toWide_eq_zero_iff]

end CodePage

/-- The bytes of a string literal. -/
def literal (text : String) : List UInt8 := text.toList.map fun ch => UInt8.ofNat ch.toNat

/-- The wide characters of a string literal. -/
def wideLiteral (text : String) : List UInt16 := text.toList.map fun ch => UInt16.ofNat ch.toNat

/-! ## Messages in

`FormatMsgIn` prints the header and the text into a buffer of wide characters and narrows it. Both
can go wrong: a buffer without a terminator is read past its end, and a text that is too long is
written past the end of `tmp`. -/

/-- The size of `tmp` and of `return_data`. -/
abbrev formatBufferSize : Nat := 512

/-- Why `FormatMsgIn` does not return. -/
inductive TextFault where
  /-- `%s` runs past the end of `Buffer`. -/
  | unterminated
  /-- A result does not fit in its buffer. -/
  | overflow
  deriving DecidableEq, Repr

/-- The wide string that starts at the front of a buffer. -/
def wideString {n : Nat} (buffer : Vector UInt16 n) : Except TextFault (List UInt16) :=
  if 0 ∈ buffer.toList then .ok (buffer.toList.takeWhile (· ≠ 0)) else .error .unterminated

/-- `L"Msg ID: %d From %d to Me => "` as `_stprintf` prints it; `%d` is an `int` in decimal. -/
def wideHeader (id fromId : Int32) : List UInt16 :=
  wideLiteral "Msg ID: " ++ wideLiteral id.toInt.repr ++ wideLiteral " From "
    ++ wideLiteral fromId.toInt.repr ++ wideLiteral " to Me => "

namespace MailBoxMessage

/-- `FormatMsgIn()`: `_stprintf` into `tmp`, `WideCharToMultiByte` into `return_data`, and the
string that starts there. -/
def formatMsgIn (page : CodePage) (this : MailBoxMessage) : Except TextFault (List UInt8) := do
  let text ← wideString this.data.pData.buffer
  let tmp := wideHeader this.data.pData.id this.data.FROM ++ text
  -- the terminator takes a place of its own
  if tmp.length + 1 > formatBufferSize then .error .overflow
  else
    let returnData := page.narrowText tmp ++ [0]
    .ok (returnData.takeWhile (· ≠ 0))

end MailBoxMessage

/-- `Msg ID: <id> From <from> to Me => `. -/
def header (id fromId : Int32) : List UInt8 :=
  literal "Msg ID: " ++ literal id.toInt.repr ++ literal " From " ++ literal fromId.toInt.repr
    ++ literal " to Me => "

/-! ## Plain text

The header is ASCII and has no terminator in it. So narrowing it gives its own characters, and it
does not cut off what stands behind it. -/

/-- ASCII without the terminator. -/
def Plain (text : String) : Prop := ∀ ch ∈ text.toList, 0 < ch.toNat ∧ ch.toNat < 128

/-- The literal parts of the header: the first, the second, and the third. -/
theorem plain_msgId : Plain "Msg ID: " := by simp [Plain]

theorem plain_from : Plain " From " := by simp [Plain]

theorem plain_toMe : Plain " to Me => " := by simp [Plain]

/-- A digit is a character from 48 to 57. -/
theorem plain_of_isDigit {ch : Char} (h : ch.isDigit = true) : 0 < ch.toNat ∧ ch.toNat < 128 := by
  have hrange : 48 ≤ ch.toNat ∧ ch.toNat ≤ 57 := by
    simpa [Char.isDigit, UInt32.le_iff_toNat_le] using h
  omega

/-- The code of an ASCII character fits into a byte. -/
theorem toNat_code {ch : Char} (hlt : ch.toNat < 128) : (UInt8.ofNat ch.toNat).toNat = ch.toNat :=
  UInt8.toNat_ofNat_of_lt' (Nat.lt_trans hlt (by decide))

theorem plain_repr (n : Int32) : Plain n.toInt.repr := by
  have hdigits (k : Nat) : Plain k.repr := by
    intro ch hch
    rw [Nat.toList_repr] at hch
    exact plain_of_isDigit (Nat.isDigit_of_mem_toDigits (by decide) (by decide) hch)
  rw [Int.repr_eq_if]
  split
  · exact hdigits _
  · intro ch hch
    rw [String.toList_append, List.mem_append] at hch
    rcases hch with hminus | hch
    · obtain rfl : ch = '-' := by simpa using hminus
      decide
    · exact hdigits _ ch hch

/-- The sign and ten digits. -/
theorem length_repr_le (n : Int32) : n.toInt.repr.toList.length ≤ 11 := by
  have hle : -2 ^ 31 ≤ n.toInt := n.le_toInt
  have hlt : n.toInt < 2 ^ 31 := n.toInt_lt
  have hdigits (k : Nat) (hk : k < 10 ^ 10) : k.repr.toList.length ≤ 10 := by
    rw [Nat.toList_repr]
    exact (Nat.length_toDigits_le_iff (by decide) (by decide)).mpr hk
  rw [Int.repr_eq_if]
  split
  · exact Nat.le_succ_of_le (hdigits _ (by omega))
  · rw [String.toList_append, List.length_append]
    exact Nat.add_le_add (Nat.le_of_eq (by simp)) (hdigits _ (by omega))

/-- ASCII comes out of the code page as it went in. -/
theorem Plain.narrow_wide (page : CodePage) {text : String} (h : Plain text) :
    page.narrowText (wideLiteral text) = literal text := by
  rw [CodePage.narrowText, wideLiteral, literal, List.map_map]
  refine List.map_congr_left fun ch hch => ?_
  obtain ⟨-, hlt⟩ := h ch hch
  have hascii : (UInt8.ofNat ch.toNat).toNat < 128 := by
    rw [toNat_code hlt]
    exact hlt
  have hwide : UInt16.ofNat ch.toNat = page.toWide (UInt8.ofNat ch.toNat) := by
    rw [page.toWide_ascii _ hascii, ← UInt16.toNat_inj, UInt8.toNat_toUInt16, toNat_code hlt]
    exact UInt16.toNat_ofNat_of_lt' (Nat.lt_trans hlt (by decide))
  rw [Function.comp_apply, hwide, page.toNarrow_toWide]

theorem Plain.zero_notMem {text : String} (h : Plain text) : 0 ∉ literal text := by
  intro hmem
  obtain ⟨ch, hch, hzero⟩ := List.mem_map.mp hmem
  obtain ⟨hpos, hlt⟩ := h ch hch
  have hcode := toNat_code hlt
  rw [hzero] at hcode
  exact absurd hcode (Nat.ne_of_lt hpos)

/-! ## The buffer

What `FormatMsgOut` leaves in the buffer of an object that has been used before: the new text and
its terminator in front, and behind them whatever was there. -/

/-- A string is cut at its first terminator. -/
theorem takeWhile_ne_zero {β : Type} [DecidableEq β] [Zero β] {text rest : List β}
    (h : 0 ∉ text) : (text ++ 0 :: rest).takeWhile (· ≠ 0) = text := by
  have hkeep : ∀ ch ∈ text, decide (ch ≠ 0) = true := by
    intro ch hch
    exact decide_eq_true fun heq => h (heq ▸ hch)
  rw [List.takeWhile_append_of_pos hkeep, List.takeWhile_cons_of_neg (by simp), List.append_nil]

/-- What starts with a string and its terminator reads as that string. -/
theorem wideString_of_prefix {n : Nat} {buffer : Vector UInt16 n} {text : List UInt16}
    (hlength : text.length < n) (htext : ∀ i (h : i < text.length), buffer[i] = text[i])
    (hend : buffer[text.length] = 0) (hnul : 0 ∉ text) : wideString buffer = .ok text := by
  have hfront : buffer.toList.take text.length = text := by
    refine List.ext_getElem (by simp; omega) fun i hi hi' => ?_
    rw [List.getElem_take, Vector.getElem_toList]
    exact htext i hi'
  have hsplit : buffer.toList = text ++ 0 :: buffer.toList.drop (text.length + 1) := by
    have hcons : buffer.toList.drop text.length = 0 :: buffer.toList.drop (text.length + 1) := by
      rw [List.drop_eq_getElem_cons (by simpa using hlength), Vector.getElem_toList, hend]
    calc buffer.toList = buffer.toList.take text.length ++ buffer.toList.drop text.length :=
          (List.take_append_drop _ _).symm
      _ = text ++ 0 :: buffer.toList.drop (text.length + 1) := by rw [hfront, hcons]
  rw [wideString, hsplit, if_pos (by simp), takeWhile_ne_zero hnul]

/-- `FormatMsgOut` leaves the first 95 characters and a terminator at the front of the buffer,
whatever was there. -/
theorem buffer_formatMsgOut (page : CodePage) (this : MailBoxMessage) (fromId msgId : Int32)
    {Msg : List UInt8} (hnul : 0 ∉ Msg) :
    wideString (this.formatMsgOut page.wideText fromId Msg msgId).data.pData.buffer
      = .ok (page.wideText (Msg.take (bufferLength - 1))) := by
  have hsize : (if Msg.length ≥ bufferLength then bufferLength - 1 else Msg.length)
      = (Msg.take (bufferLength - 1)).length := by
    rw [List.length_take]
    split <;> omega
  -- the conversion reads to the end of `Msg`
  have hsource : Msg.takeWhile (· ≠ 0) = Msg :=
    List.takeWhile_eq_self_iff.mpr fun ch hch => decide_eq_true fun heq => hnul (heq ▸ hch)
  have hlength : (page.wideText (Msg.take (bufferLength - 1))).length
      = (Msg.take (bufferLength - 1)).length := List.length_map _
  have hlt : (Msg.take (bufferLength - 1)).length < bufferLength :=
    Nat.lt_of_le_of_lt (List.length_take_le _ _) (by decide)
  -- the text, its terminator, and no terminator before that
  simp only [MailBoxMessage.formatMsgOut, multiByteToWideChar, hsize, hsource]
  refine wideString_of_prefix (hlength.trans_lt hlt) (fun i hi => ?_) ?_ ?_
  · rw [hlength] at hi
    have hi' : i < (page.wideText Msg).length := by
      rw [CodePage.wideText, List.length_map]
      exact Nat.lt_of_lt_of_le hi (List.length_take_le' _ _)
    rw [Vector.getElem_setIfInBounds_ne _ (by omega), Vector.getElem_ofFn, if_pos hi,
      List.getD_append _ _ _ _ hi', List.getD_eq_getElem _ _ hi']
    simp [CodePage.wideText]
  · rw [Vector.getElem_setIfInBounds, if_pos hlength.symm]
  · rw [page.zero_mem_wideText_iff]
    exact fun hmem => hnul (List.mem_of_mem_take hmem)

/-! ## Out and in again

A header has at most 46 characters and a text at most 95, which is less than the 256 of `tmp`. So a
message that `FormatMsgOut` has formatted can always be printed. -/

theorem narrow_wideHeader (page : CodePage) (id fromId : Int32) :
    page.narrowText (wideHeader id fromId) = header id fromId := by
  have happend (a b : List UInt16) :
      page.narrowText (a ++ b) = page.narrowText a ++ page.narrowText b := List.map_append
  simp only [wideHeader, header, happend, plain_msgId.narrow_wide, plain_from.narrow_wide,
    plain_toMe.narrow_wide, (plain_repr _).narrow_wide]

/-- The header does not end the string. -/
theorem zero_notMem_header (id fromId : Int32) : 0 ∉ header id fromId := by
  simp only [header, List.mem_append, not_or]
  exact ⟨⟨⟨⟨plain_msgId.zero_notMem, (plain_repr _).zero_notMem⟩, plain_from.zero_notMem⟩,
    (plain_repr _).zero_notMem⟩, plain_toMe.zero_notMem⟩

/-- Twenty-four characters and two numbers. -/
theorem length_wideHeader_le (id fromId : Int32) : (wideHeader id fromId).length ≤ 46 := by
  have hid := length_repr_le id
  have hfromId := length_repr_le fromId
  simp [wideHeader, wideLiteral]
  omega

/-- `FormatMsgIn` prints the string in the buffer behind the header, and there is room for it. -/
theorem formatMsgIn_eq (page : CodePage) {this : MailBoxMessage} {text : List UInt8}
    (htext : wideString this.data.pData.buffer = .ok (page.wideText text)) (hnul : 0 ∉ text)
    (hroom : text.length < bufferLength) :
    this.formatMsgIn page = .ok (header this.data.pData.id this.data.FROM ++ text) := by
  have htmp : ¬ (wideHeader this.data.pData.id this.data.FROM ++ page.wideText text).length + 1
      > formatBufferSize := by
    have hheader := length_wideHeader_le this.data.pData.id this.data.FROM
    have hwide : (page.wideText text).length = text.length := List.length_map _
    rw [List.length_append, hwide]
    unfold bufferLength at hroom
    unfold formatBufferSize
    omega
  have hnarrow : page.narrowText (wideHeader this.data.pData.id this.data.FROM ++ page.wideText text)
      = header this.data.pData.id this.data.FROM ++ text := by
    rw [CodePage.narrowText, List.map_append]
    exact congrArg₂ _ (narrow_wideHeader page _ _) (page.narrowText_wideText text)
  -- nothing is cut off
  have hplain : 0 ∉ header this.data.pData.id this.data.FROM ++ text := by
    rw [List.mem_append, not_or]
    exact ⟨zero_notMem_header _ _, hnul⟩
  rw [MailBoxMessage.formatMsgIn, htext, ok_bind]
  dsimp only
  rw [if_neg htmp, hnarrow, takeWhile_ne_zero hplain]

/-- A call of `FormatMsgOut`. -/
structure Outgoing where
  fromId : Int32
  Msg : List UInt8
  msgId : Int32

/-- The calls, on one object. -/
def formatAll (page : CodePage) (this : MailBoxMessage) (calls : List Outgoing) : MailBoxMessage :=
  calls.foldl (fun this call => this.formatMsgOut page.wideText call.fromId call.Msg call.msgId) this

/-- The way through the queue: `Put` copies the message into a node with `CopyFrom`, `Get` out of
it into the reader's buffer with `CopyTo`. -/
def throughQueue (message node reader : MailBoxMessage) : MailBoxMessage :=
  { data := (node.copyFrom message.data).copyTo reader.data }

/-- Two copies of every field change nothing. -/
theorem throughQueue_eq (message node reader : MailBoxMessage) :
    throughQueue message node reader = message := rfl

/-- **Headline.** After any calls on the object, a message without a `NUL` arrives as its header
and its first 95 characters, whatever the objects held before, and fits in the buffers. -/
theorem formatMsgIn_formatMsgOut (page : CodePage) (this node reader : MailBoxMessage)
    (earlier : List Outgoing) (call : Outgoing) (hnul : 0 ∉ call.Msg) :
    (throughQueue (formatAll page this (earlier ++ [call])) node reader).formatMsgIn page
      = .ok (header call.msgId call.fromId ++ call.Msg.take (min call.Msg.length 95)) := by
  have hlast : formatAll page this (earlier ++ [call])
      = (formatAll page this earlier).formatMsgOut page.wideText call.fromId call.Msg call.msgId := by
    rw [formatAll, List.foldl_append]
    rfl
  have htake : call.Msg.take (min call.Msg.length 95) = call.Msg.take (bufferLength - 1) := by
    rw [Nat.min_comm, ← List.take_eq_take_min]
    rfl
  rw [throughQueue_eq, hlast, htake]
  exact formatMsgIn_eq page (buffer_formatMsgOut page _ _ _ hnul)
    (fun hmem => hnul (List.mem_of_mem_take hmem))
    (Nat.lt_of_le_of_lt (List.length_take_le _ _) (by decide))

/-- The code page in which every byte is its own code. -/
def latin1 : CodePage where
  toWide := UInt8.toUInt16
  toNarrow := UInt16.toUInt8
  toNarrow_toWide := UInt8.toUInt8_toUInt16
  toWide_ascii := fun _ _ => rfl

/-- "Hi" after "Hello UB!" in the same object. -/
theorem formatMsgIn_formatMsgOut_hi :
    (throughQueue (formatAll latin1 .allocateMsg
        [⟨1, literal "Hello UB!", 41⟩, ⟨1, literal "Hi", 42⟩]) .allocateMsg .allocateMsg).formatMsgIn
      latin1 = .ok (header 42 1 ++ literal "Hi") := by
  have hplain : Plain "Hi" := by simp [Plain]
  have hmsg := formatMsgIn_formatMsgOut latin1 .allocateMsg .allocateMsg .allocateMsg
    [⟨1, literal "Hello UB!", 41⟩] ⟨1, literal "Hi", 42⟩ hplain.zero_notMem
  rw [List.take_of_length_le (by simp [literal])] at hmsg
  exact hmsg

end OsLab.Twitter
