import OsLab.Lib.Scan

/-!
# OsLab.Paging.AddressFile — addresses.txt

`read_Address`, which both paging programs have: `fscanf_s` with `"%d, "` until the buffer is
full or no number is next.

* **`readAddress`**: the count it returns and the buffer it leaves.
* **`Listing is text`**: `text` lists the numbers `is` in decimal, a comma or white space between
  them.
* **`readAddress_listing`**: such a text is read back, up to the size of the buffer, if an `int`
  holds its numbers.
* **`addressText`**: the addresses of a list, separated as in the file that comes with the
  programs.

What `%d` stores for digits that no `int` holds is up to the C library. The model gives the low
32 bits there, and no theorem says anything about such a text.
-/

namespace OsLab.Paging

open Scan

/-- The entries of `addressPtr`, which is what `read_Address` gets as `length`. -/
abbrev addressLength : Nat := 128

abbrev AddressBuffer := Vector Int32 addressLength

/-- `memset(buffer, 0, length)`: `length` bytes of the buffer, a quarter of its entries. -/
def clearFront (buffer : AddressBuffer) : AddressBuffer :=
  Vector.ofFn fun j => if 4 * j.val < addressLength then 0 else buffer.get j

/-- What `", "` does with the text after a number: nothing, unless a comma is next. -/
def separator : List Char → List Char
  | [] => []
  | ch :: text => if ch = ',' then skipSpace text else ch :: text

/-- The loop of `read_Address` with `rounds` rounds to go; `j` and `count` agree. What is stored
for a number that an `int` holds is this number; for any other one the C library decides, and
the low 32 bits stand here. -/
def readLoop : Nat → Nat → List Char → AddressBuffer → Nat × AddressBuffer
  | 0, count, _, buffer => (count, buffer)
  | rounds + 1, count, text, buffer =>
    match number text with
    | none => (count, buffer)
    | some (i, rest) =>
      readLoop rounds (count + 1) (separator rest) (buffer.setIfInBounds count (Int32.ofInt i))

/-- `read_Address(buffer, length)`, without what it prints; the file is `none` when it cannot
be opened. -/
def readAddress (file : Option (List Char)) (buffer : AddressBuffer) : Nat × AddressBuffer :=
  match file with
  | none => (0, clearFront buffer)
  | some text => readLoop addressLength 0 text (clearFront buffer)

/-- The addresses that the program goes on with. -/
def addressesRead (file : Option (List Char)) (buffer : AddressBuffer) : List Int32 :=
  (readAddress file buffer).2.toList.take (readAddress file buffer).1

/-! ## Texts that list numbers

What the loop makes of a text depends on `fscanf`: blanks and line breaks before a number are
skipped, one comma after it is taken, and anything else ends the list. -/

/-- The text lists the numbers, each written as `Int.repr` writes it (a minus sign at most, no
zeros in front), after each of them a comma or what is no digit, and no number follows the last
one. -/
inductive Listing : List Int → List Char → Prop where
  | stop {text : List Char} (h : number text = none) : Listing [] text
  | next {blanks rest : List Char} {i : Int} {is : List Int}
      (hblanks : ∀ ch ∈ blanks, isSpace ch = true) (hend : AtEnd rest)
      (h : Listing is (separator rest)) : Listing (i :: is) (blanks ++ (i.repr.toList ++ rest))

variable {is : List Int} {text : List Char} {buffer : AddressBuffer} {count : Nat}

/-- One entry of the buffer is replaced. -/
theorem toList_setIfInBounds (hcount : count < addressLength) (v : Int32) :
    (buffer.setIfInBounds count v).toList
      = buffer.toList.take count ++ v :: buffer.toList.drop (count + 1) := by
  rw [Vector.toList_setIfInBounds, List.set_eq_take_append_cons_drop, if_pos (by simpa using hcount)]

/-- The loop stores the numbers it reads one after the other and leaves the other entries as
they were. Induction on the rounds. -/
theorem readLoop_listing (rounds : Nat) : ∀ {count : Nat} {is : List Int} {text : List Char}
    {buffer : AddressBuffer}, count + rounds = addressLength → Listing is text →
    (readLoop rounds count text buffer).1 = count + min rounds is.length
      ∧ (readLoop rounds count text buffer).2.toList
        = buffer.toList.take count ++ (is.take rounds).map Int32.ofInt
          ++ buffer.toList.drop (count + min rounds is.length) := by
  induction rounds with
  | zero =>
    intro count is text buffer _ _
    rw [Nat.zero_min, List.take_zero, List.map_nil, List.append_nil, Nat.add_zero,
      List.take_append_drop]
    exact ⟨rfl, rfl⟩
  | succ rounds ih =>
    intro count is text buffer hcount hlisting
    cases hlisting with
    | stop hnone =>
      -- no number is left, and the buffer stays as it is
      rw [readLoop, hnone, List.length_nil, Nat.min_zero, List.take_nil, List.map_nil,
        List.append_nil]
      exact ⟨rfl, (List.take_append_drop count buffer.toList).symm⟩
    | @next blanks rest i is hblanks hend hrest =>
      have hroom : count + 1 + rounds = addressLength := by omega
      -- a number is stored at `count`, and the rest is read behind it
      obtain ⟨hfst, hsnd⟩ := @ih (count + 1) is (separator rest)
        (buffer.setIfInBounds count (Int32.ofInt i)) hroom hrest
      have hlen : (buffer.toList.take count).length = count := by
        rw [List.length_take, Vector.length_toList]
        omega
      rw [readLoop, number_repr hblanks i hend]
      dsimp only
      refine ⟨?_, ?_⟩
      · rw [hfst, List.length_cons]
        omega
      · have hfront : (buffer.toList.take count ++ Int32.ofInt i :: buffer.toList.drop (count + 1)).take
            (count + 1) = buffer.toList.take count ++ [Int32.ofInt i] := by
          rw [List.take_append, hlen, Nat.add_sub_cancel_left, List.take_of_length_le (by omega)]
          rfl
        have hback (n : Nat) :
            (buffer.toList.take count ++ Int32.ofInt i :: buffer.toList.drop (count + 1)).drop
              (count + 1 + n) = buffer.toList.drop (count + 1 + n) := by
          rw [List.drop_append, hlen, List.drop_eq_nil_of_le (by omega), List.nil_append,
            show count + 1 + n - count = n + 1 by omega, List.drop_succ_cons, List.drop_drop]
        have hend' : count + 1 + min rounds is.length = count + min (rounds + 1) (is.length + 1) := by
          omega
        rw [hsnd, toList_setIfInBounds (by omega), hfront, hback, List.length_cons, ← hend',
          List.take_succ_cons, List.map_cons, List.append_assoc, List.append_assoc,
          List.singleton_append, List.append_assoc, List.cons_append]

/-- The loop from the start of the buffer. -/
theorem readAddress_eq (hlisting : Listing is text) (buffer : AddressBuffer) :
    (readAddress (some text) buffer).1 = min addressLength is.length
      ∧ (readAddress (some text) buffer).2.toList = (is.take addressLength).map Int32.ofInt
          ++ (clearFront buffer).toList.drop (min addressLength is.length) := by
  have hread := @readLoop_listing addressLength 0 is text (clearFront buffer) (Nat.zero_add _) hlisting
  rwa [Nat.zero_add] at hread

/-- The addresses are the first numbers of the list, as many as fit. -/
theorem addressesRead_eq (hlisting : Listing is text) (buffer : AddressBuffer) :
    addressesRead (some text) buffer = (is.take addressLength).map Int32.ofInt := by
  obtain ⟨hcount, hbuffer⟩ := readAddress_eq hlisting buffer
  have hlen : ((is.take addressLength).map Int32.ofInt).length = min addressLength is.length := by
    rw [List.length_map, List.length_take]
  rw [addressesRead, hcount, hbuffer, ← hlen, List.take_left]

/-- What an `int` can hold. -/
def HeldByInt (i : Int) : Prop := -2147483648 ≤ i ∧ i < 2147483648

/-- An `int` keeps a number that it can hold. -/
theorem toInt_ofInt_of_held {i : Int} (h : HeldByInt i) : (Int32.ofInt i).toInt = i :=
  Int32.toInt_ofInt_of_le h.1 h.2

/-- **A listing is read back**, up to the size of the buffer, if an `int` holds its numbers: what
is returned is the number of addresses read, they stand in front, and no other entry is touched
but for the bytes that are cleared. -/
theorem readAddress_listing (hlisting : Listing is text) (hheld : ∀ i ∈ is, HeldByInt i)
    (buffer : AddressBuffer) :
    (readAddress (some text) buffer).1 = min addressLength is.length
      ∧ (addressesRead (some text) buffer).map Int32.toInt = is.take addressLength
      ∧ ∀ j : Fin addressLength, is.length ≤ j.val →
          (readAddress (some text) buffer).2.get j
            = if 4 * j.val < addressLength then 0 else buffer.get j := by
  obtain ⟨hcount, hbuffer⟩ := readAddress_eq hlisting buffer
  refine ⟨hcount, ?_, fun j hj => ?_⟩
  · rw [addressesRead_eq hlisting, List.map_map]
    have hid : (is.take addressLength).map (Int32.toInt ∘ Int32.ofInt)
        = (is.take addressLength).map id :=
      List.map_congr_left fun i hi => toInt_ofInt_of_held (hheld i (List.mem_of_mem_take hi))
    rw [hid, List.map_id]
  -- the entries behind the last number are those the clearing has left
  · have hfront : ((is.take addressLength).map Int32.ofInt).length = is.length := by
      rw [List.length_map, List.length_take, Nat.min_eq_right (by omega)]
    have hget : (readAddress (some text) buffer).2.toList[j.val]?
        = (clearFront buffer).toList[j.val]? := by
      rw [hbuffer, List.getElem?_append_right (by omega), hfront, Nat.min_eq_right (by omega),
        List.getElem?_drop, Nat.add_sub_cancel' hj]
    rw [Vector.getElem?_toList, Vector.getElem?_toList, Vector.getElem?_eq_getElem j.isLt,
      Vector.getElem?_eq_getElem j.isLt, Option.some.injEq, clearFront, Vector.getElem_ofFn] at hget
    exact hget

/-- A negative number and a line break, in a buffer of ones. -/
theorem readAddress_listing_two :
    (readAddress (some "5,\n-7 ".toList) (Vector.replicate _ 1)).1
        = min addressLength [5, -7].length
      ∧ (addressesRead (some "5,\n-7 ".toList) (Vector.replicate _ 1)).map Int32.toInt
        = [5, -7].take addressLength
      ∧ ∀ j : Fin addressLength, 2 ≤ j.val →
          (readAddress (some "5,\n-7 ".toList) (Vector.replicate _ 1)).2.get j
            = if 4 * j.val < addressLength then 0 else (Vector.replicate _ (1 : Int32)).get j :=
  have hstop : Listing [] (separator [' ']) := .stop rfl
  have hlast : Listing [-7] (separator [',', '\n', '-', '7', ' ']) :=
    @Listing.next [] [' '] (-7) [] (fun _ h => by cases h) (fun _ h => by cases h; rfl) hstop
  have hboth : Listing [5, -7] "5,\n-7 ".toList :=
    @Listing.next [] [',', '\n', '-', '7', ' '] 5 [-7] (fun _ h => by cases h)
      (fun _ h => by cases h; rfl) hlast
  have hheld : ∀ i ∈ [(5 : Int), -7], HeldByInt i := by
    simp [HeldByInt]
  readAddress_listing hboth hheld (Vector.replicate _ 1)

/-! ## Writing addresses

The other direction: addresses are written as the text that the repository has for them, and that
text lists them. -/

/-- The addresses as the file that comes with the programs has them. -/
def addressText : List Int32 → List Char
  | [] => []
  | [address] => address.toInt.repr.toList
  | address :: next :: rest => address.toInt.repr.toList ++ ',' :: ' ' :: addressText (next :: rest)

/-- The text starts with the first address. -/
theorem exists_addressText_cons (address : Int32) (rest : List Int32) :
    ∃ tail, addressText (address :: rest) = address.toInt.repr.toList ++ tail := by
  cases rest with
  | nil => exact ⟨[], (List.append_nil _).symm⟩
  | cons next rest => exact ⟨_, rfl⟩

/-- The comma and the blank after it are skipped. -/
theorem separator_addressText (address : Int32) (rest : List Int32) :
    separator (',' :: ' ' :: addressText (address :: rest)) = addressText (address :: rest) := by
  obtain ⟨tail, htext⟩ := exists_addressText_cons address rest
  rw [separator, if_pos rfl, htext]
  show skipSpace ([' '] ++ (address.toInt.repr.toList ++ tail)) = _
  rw [skipSpace_append (List.forall_mem_singleton.mpr rfl), skipSpace_repr]

theorem listing_addressText (addresses : List Int32) :
    Listing (addresses.map Int32.toInt) (addressText addresses) := by
  induction addresses with
  | nil => exact .stop rfl
  | cons address rest ih =>
    have hblanks : ∀ ch ∈ ([] : List Char), isSpace ch = true := fun _ h => by cases h
    cases rest with
    | nil =>
      have hend : AtEnd [] := fun _ h => by cases h
      have hone : Listing [address.toInt] ([] ++ (address.toInt.repr.toList ++ [])) :=
        .next hblanks hend (.stop rfl)
      rwa [List.append_nil] at hone
    | cons next rest =>
      have hcomma : AtEnd (',' :: ' ' :: addressText (next :: rest)) := by
        intro ch hch
        cases hch
        rfl
      refine Listing.next (i := address.toInt) hblanks hcomma ?_
      rw [separator_addressText]
      exact ih

/-- **What is written is read**, up to the size of the buffer. -/
theorem addressesRead_addressText (addresses : List Int32) (buffer : AddressBuffer) :
    addressesRead (some (addressText addresses)) buffer = addresses.take addressLength := by
  rw [addressesRead_eq (listing_addressText addresses), ← List.map_take, List.map_map]
  exact (List.map_congr_left fun address _ => Int32.ofInt_toInt address).trans (List.map_id _)

end OsLab.Paging
