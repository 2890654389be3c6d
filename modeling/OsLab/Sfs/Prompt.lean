import OsLab.Lib.Scan
import OsLab.Sfs.Numbers
import OsLab.Sfs.Sessions

/-!
# OsLab.Sfs.Prompt — what is typed

The loop of `main` reads a line with `fgets`, takes it apart with `sscanf` and hands it to the
command it names, which looks at the number of words before it looks at the words. The buffers of
`sscanf` are not cleared: what a line does not fill holds what was there before.

* **`lines`**: the lines `fgets` delivers, which are all of the input (`flatten_lines`), cut at the
  room that `line` has.
* **`parse_words`**: a request that is typed is the request made, whatever the white space and
  whatever the buffers held.
* **`parse_independent`**: what a blank line does is left to the buffers, but it never runs a command.
  It may leave the program, and `~FileSystem` then writes the dirty inode blocks.
-/

namespace OsLab.Sfs

open Scan

/-! ## Lines

`fgets` takes characters up to a newline, or as many as fit. A line that is too long is taken in
parts, each a line to `main`. -/

/-- `BUFSIZ`. -/
abbrev bufSize : Nat := 512

/-- What `fgets` takes when there is room for so many characters, and what it leaves. -/
def takeLine : Nat → List Char → List Char × List Char
  | 0, text => ([], text)
  | _ + 1, [] => ([], [])
  | room + 1, ch :: text =>
    if ch = '\n' then ([ch], text)
    else (ch :: (takeLine room text).1, (takeLine room text).2)

/-- `fgets(line, BUFSIZ, stdin)`: the line and the rest of the input, `none` for `NULL`. -/
def fgets (text : List Char) : Option (List Char × List Char) :=
  if text = [] then none else some (takeLine (bufSize - 1) text)

theorem takeLine_append (room : Nat) (text : List Char) :
    (takeLine room text).1 ++ (takeLine room text).2 = text := by
  induction room generalizing text with
  | zero => rfl
  | succ room ih =>
    cases text with
    | nil => rfl
    | cons ch text =>
      rw [takeLine]
      split
      · rfl
      · rw [List.cons_append, ih]

/-- A line has at least one character. -/
theorem takeLine_ne_nil {room : Nat} {text : List Char} (h : text ≠ []) :
    (takeLine (room + 1) text).1 ≠ [] := by
  cases text with
  | nil => exact absurd rfl h
  | cons ch text =>
    rw [takeLine]
    split <;> exact List.cons_ne_nil _ _

/-- A line leaves less than there was. -/
theorem length_of_fgets {text line rest : List Char} (h : fgets text = some (line, rest)) :
    line ++ rest = text ∧ rest.length < text.length := by
  unfold fgets at h
  split at h
  · cases h
  · next hne =>
    have htake : takeLine 511 text = (line, rest) := Option.some.inj h
    have hsplit := takeLine_append 511 text
    have hline := List.length_pos_iff.mpr (@takeLine_ne_nil 510 text hne)
    rw [htake] at hsplit hline
    have hlength : line.length + rest.length = text.length := by rw [← hsplit, List.length_append]
    have hpos : 0 < line.length := hline
    exact ⟨hsplit, by omega⟩

/-- The lines the loop of `main` reads, up to the end of the input. -/
def lines (text : List Char) : List (List Char) :=
  match _h : fgets text with
  | none => []
  | some (line, rest) => line :: lines rest
termination_by text.length
decreasing_by exact (length_of_fgets _h).2

theorem lines_nil : lines [] = [] := by
  rw [lines]
  rfl

/-- The first line, and then the others. -/
theorem lines_of_fgets {text line rest : List Char} (h : fgets text = some (line, rest)) :
    lines text = line :: lines rest := by
  rw [lines]
  split
  · next hnone =>
    rw [h] at hnone
    cases hnone
  · next line' rest' hsome =>
    rw [h] at hsome
    cases hsome
    rfl

/-- **Nothing typed is lost.** -/
theorem flatten_lines (text : List Char) : (lines text).flatten = text := by
  induction hlength : text.length using Nat.strong_induction_on generalizing text with
  | _ length ih =>
    cases hread : fgets text with
    | none =>
      have hnil : text = [] := by
        unfold fgets at hread
        split at hread
        · next hnil => exact hnil
        · cases hread
      rw [hnil, lines_nil]
      rfl
    | some r =>
      obtain ⟨line, rest⟩ := r
      obtain ⟨happend, hshorter⟩ := length_of_fgets hread
      rw [lines_of_fgets hread, List.flatten_cons, ih _ (hlength ▸ hshorter) rest rfl, happend]

theorem takeLine_newline {line : List Char} (hline : '\n' ∉ line) (rest : List Char) :
    ∀ {room : Nat}, line.length < room →
      takeLine room (line ++ '\n' :: rest) = (line ++ ['\n'], rest) := by
  induction line with
  | nil =>
    intro room hroom
    obtain ⟨room, rfl⟩ := Nat.exists_eq_succ_of_ne_zero (Nat.ne_of_gt hroom)
    rw [List.nil_append, takeLine, if_pos rfl]
    rfl
  | cons ch line ih =>
    intro room hroom
    obtain ⟨room, rfl⟩ := Nat.exists_eq_succ_of_ne_zero
      (Nat.ne_of_gt (Nat.lt_of_le_of_lt (Nat.zero_le _) hroom))
    have hch : ch ≠ '\n' := fun heq => hline (heq ▸ List.mem_cons_self)
    have hroom' : line.length < room := Nat.lt_of_succ_lt_succ hroom
    rw [List.cons_append, takeLine, if_neg hch,
      ih (fun hmem => hline (List.mem_cons_of_mem ch hmem)) hroom']
    rfl

/-- A line that fits is read whole, its newline included. -/
theorem lines_cons {line : List Char} (hline : '\n' ∉ line) (hfits : line.length + 1 < bufSize)
    (rest : List Char) : lines (line ++ '\n' :: rest) = (line ++ ['\n']) :: lines rest := by
  refine lines_of_fgets ?_
  rw [fgets, if_neg (List.append_ne_nil_of_right_ne_nil line (List.cons_ne_nil _ rest)),
    takeLine_newline hline rest (Nat.lt_sub_of_add_lt hfits)]

/-! ## Words

`sscanf` takes up to three words into buffers that are not cleared between lines. What is not typed
is what an earlier line has left there. -/

/-- `cmd`, `arg1` and `arg2`. -/
structure Buffers where
  cmd : List Char
  arg1 : List Char
  arg2 : List Char

/-- `sscanf(line, "%s %s %s", cmd, arg1, arg2)`: the number of words, `EOF` without any, and the
buffers. -/
def scanLine (old : Buffers) (line : List Char) : Int × Buffers :=
  match word line with
  | none => (-1, old)
  | some (cmd, rest) =>
    match word rest with
    | none => (1, { old with cmd })
    | some (arg1, rest) =>
      match word rest with
      | none => (2, { old with cmd, arg1 })
      | some (arg2, _) => (3, { cmd, arg1, arg2 })

/-- The number that `atoi` finds, `0` where there is none. -/
def typedNumber (text : List Char) : Int :=
  match number text with
  | none => 0
  | some (value, _) => value

/-- What a line asks for. -/
inductive Request where
  | debug
  | format
  | mount
  | cat (inumber : Nat)
  | copyout (inumber : Nat) (path : List Char)
  | remove (inumber : Nat)
  | stat (inumber : Nat)
  | copyin (path : List Char)
  | ls
  | help
  /-- `exit` or `quit`. -/
  | leave
  | usage (text : String)
  | unknown (line : List Char)

/-- The test every command starts with. -/
def checked (args expected : Int) (usage : String) (request : Request) : Request :=
  if args = expected then request else .usage usage

/-- The commands of `main`, each with the words it wants. -/
def dispatch (args : Int) (words : Buffers) (line : List Char) : Request :=
  if words.cmd = "debug".toList then checked args 1 "Usage: debug\n" .debug
  else if words.cmd = "format".toList then checked args 1 "Usage: format\n" .format
  else if words.cmd = "mount".toList then checked args 1 "Usage: mount\n" .mount
  else if words.cmd = "cat".toList then
    checked args 2 "Usage: cat <inode>\n" (.cat (inodeNumber (typedNumber words.arg1)))
  else if words.cmd = "ls".toList then checked args 1 "Usage: ls\n" .ls
  else if words.cmd = "copyout".toList then
    checked args 3 "Usage: copyout <inode> <file>\n"
      (.copyout (inodeNumber (typedNumber words.arg1)) words.arg2)
  else if words.cmd = "remove".toList then
    checked args 2 "Usage: remove <inode>\n" (.remove (inodeNumber (typedNumber words.arg1)))
  else if words.cmd = "stat".toList then
    checked args 2 "Usage: stat <inode>\n" (.stat (inodeNumber (typedNumber words.arg1)))
  else if words.cmd = "copyin".toList then
    checked args 2 "Usage: copyin <file>\n" (.copyin words.arg1)
  else if words.cmd = "help".toList then .help
  else if words.cmd = "exit".toList ∨ words.cmd = "quit".toList then .leave
  else .unknown line

/-- A line, up to a zero character, with what the buffers held before. -/
def parse (old : Buffers) (line : List Char) : Request :=
  let line := line.takeWhile fun ch => ch != Char.ofNat 0
  dispatch (scanLine old line).1 (scanLine old line).2 line

namespace Request

/-- The words to type for a request. -/
def words : Request → List (List Char)
  | .debug => ["debug".toList]
  | .format => ["format".toList]
  | .mount => ["mount".toList]
  | .cat n => ["cat".toList, (n : Int).repr.toList]
  | .copyout n path => ["copyout".toList, (n : Int).repr.toList, path]
  | .remove n => ["remove".toList, (n : Int).repr.toList]
  | .stat n => ["stat".toList, (n : Int).repr.toList]
  | .copyin path => ["copyin".toList, path]
  | .ls => ["ls".toList]
  | .help => ["help".toList]
  | .leave => ["exit".toList]
  | .usage _ | .unknown _ => []

/-- A request that can be typed: its number is an `int`, and it is not an error of the typist. -/
def Typable : Request → Prop
  | .cat n | .copyout n _ | .remove n | .stat n => n < 2147483648
  | .usage _ | .unknown _ => False
  | .debug | .format | .mount | .copyin _ | .ls | .help | .leave => True

/-- It runs a command of the file system. To leave is not one, though the destructor that then runs
writes to the disk. -/
def isCommand : Request → Bool
  | .debug | .format | .mount | .cat _ | .copyout .. | .remove _ | .stat _ | .copyin _ | .ls => true
  | .help | .leave | .usage _ | .unknown _ => false

end Request

variable {old : Buffers} {line : List Char}

/-! Spelled lines. -/

theorem scanLine_one {c : List Char} (h : Spelled [c] line) :
    scanLine old line = (1, { old with cmd := c }) := by
  obtain ⟨rest, hword, h⟩ := h.word_cons
  rw [scanLine, hword]
  dsimp only
  rw [h.word_nil]

theorem scanLine_two {c a : List Char} (h : Spelled [c, a] line) :
    scanLine old line = (2, { old with cmd := c, arg1 := a }) := by
  obtain ⟨rest, hword, h⟩ := h.word_cons
  obtain ⟨rest', hword', h⟩ := h.word_cons
  rw [scanLine, hword]
  dsimp only
  rw [hword']
  dsimp only
  rw [h.word_nil]

theorem scanLine_three {c a b : List Char} (h : Spelled [c, a, b] line) :
    scanLine old line = (3, { cmd := c, arg1 := a, arg2 := b }) := by
  obtain ⟨rest, hword, h⟩ := h.word_cons
  obtain ⟨rest', hword', h⟩ := h.word_cons
  obtain ⟨rest'', hword'', h⟩ := h.word_cons
  rw [scanLine, hword]
  dsimp only
  rw [hword']
  dsimp only
  rw [hword'']

/-- A number below `2 ^ 31` is read as it was typed. -/
theorem inodeNumber_typed {n : Nat} (hn : n < 2147483648) :
    inodeNumber (typedNumber (n : Int).repr.toList) = n := by
  have hread : number (n : Int).repr.toList = some ((n : Int), []) := by
    have hblanks : ∀ ch ∈ ([] : List Char), isSpace ch = true := fun _ hch => absurd hch List.not_mem_nil
    have hend : AtEnd [] := fun _ hch => by cases hch
    have hrepr := number_repr hblanks (n : Int) hend
    rwa [List.nil_append, List.append_nil] at hrepr
  rw [typedNumber, hread]
  dsimp only
  unfold inodeNumber atoi
  omega

/-- **What is typed is what is asked for.** -/
theorem parse_words {r : Request} (htypable : r.Typable) (hzero : Char.ofNat 0 ∉ line)
    (h : Spelled r.words line) : parse old line = r := by
  have hline : line.takeWhile (fun ch => ch != Char.ofNat 0) = line :=
    List.takeWhile_eq_self_iff.mpr fun ch hch => bne_iff_ne.mpr fun heq => hzero (heq ▸ hch)
  rw [parse, hline]
  cases r with
  | debug | format | mount | ls | help | leave =>
    rw [scanLine_one h]
    simp [dispatch, checked]
  | cat n | remove n | stat n =>
    rw [scanLine_two h]
    simp [dispatch, checked, inodeNumber_typed htypable]
  | copyin path =>
    rw [scanLine_two h]
    simp [dispatch, checked]
  | copyout n path =>
    rw [scanLine_three h]
    simp [dispatch, checked, inodeNumber_typed htypable]
  | usage | unknown => exact htypable.elim

theorem checked_of_ne {args expected : Int} (h : args ≠ expected) (usage : String) (r : Request) :
    checked args expected usage r = .usage usage :=
  if_neg h

/-- A line without words runs no command, though it may leave. -/
theorem dispatch_eof (words : Buffers) (line : List Char) :
    (dispatch (-1) words line).isCommand = false := by
  have hone : (-1 : Int) ≠ 1 := by decide
  have htwo : (-1 : Int) ≠ 2 := by decide
  have hthree : (-1 : Int) ≠ 3 := by decide
  rw [dispatch]
  simp only [checked_of_ne hone, checked_of_ne htwo, checked_of_ne hthree]
  repeat' split
  all_goals rfl

/-- **A line without a word** runs no command, whatever the buffers held. -/
theorem parse_of_no_word (hword : word (line.takeWhile fun ch => ch != Char.ofNat 0) = none)
    (old : Buffers) : (parse old line).isCommand = false := by
  rw [parse, scanLine, hword]
  exact dispatch_eof old _

/-- One word: the arguments are not looked at. -/
theorem dispatch_one (words : Buffers) (arg1 arg2 : List Char) (line : List Char) :
    dispatch 1 { words with arg1, arg2 } line = dispatch 1 words line := by
  have htwo : (1 : Int) ≠ 2 := by decide
  have hthree : (1 : Int) ≠ 3 := by decide
  rw [dispatch, dispatch]
  simp only [checked_of_ne htwo, checked_of_ne hthree]

/-- Two words: the second argument is not looked at. -/
theorem dispatch_two (words : Buffers) (arg2 : List Char) (line : List Char) :
    dispatch 2 { words with arg2 } line = dispatch 2 words line := by
  have hthree : (2 : Int) ≠ 3 := by decide
  rw [dispatch, dispatch]
  simp only [checked_of_ne hthree]

/-- **A line with a word in it** asks for the same whatever the buffers held. -/
theorem parse_eq_of_word {r : List Char × List Char}
    (hword : word (line.takeWhile fun ch => ch != Char.ofNat 0) = some r) (old old' : Buffers) :
    parse old line = parse old' line := by
  obtain ⟨cmd, rest⟩ := r
  rw [parse, parse, scanLine, scanLine, hword]
  dsimp only
  cases word rest with
  | none => exact dispatch_one { old' with cmd } old.arg1 old.arg2 _
  | some r' =>
    obtain ⟨arg1, rest'⟩ := r'
    dsimp only
    cases word rest' with
    | none => exact dispatch_two { old' with cmd, arg1 } old.arg2 _
    | some r'' => rfl

/-- A blank line leaves the program if `exit` is still in `cmd`, and is unknown otherwise. -/
example : (parse { cmd := "exit".toList, arg1 := [], arg2 := [] } ['\n']).isCommand = false := rfl

end OsLab.Sfs
