import Mathlib.Data.List.TakeDrop
import OsLab.Twitter.MsgList

/-!
# OsLab.Twitter.Deliveries — what the readers of a message list get

`MsgList::Get` leaves a sole node where it is, and the next reads begin with it. Here is what
that comes to over a whole sequence of calls, whatever their order.

* **`lagged`**: the messages put, the last one of some moment shown twice and everything after it
  one read late.
* **`Session.Lags`**: a list in use, with that moment; **`Session.Lags.put`** and
  **`Session.Lags.read`** are the two calls.
* **`deliveries_lag`** is the headline: the deliveries of every sequence of calls.
-/

namespace OsLab.Twitter

/-- The first `n` deliveries of the messages put. When the queue has been emptied by the `k`-th of
them, that message is delivered once more and the others follow behind it. -/
def lagged {α : Type} (sent : List α) (n : Nat) : Option Nat → List α
  | none => sent.take n
  | some k => sent.take k ++ (sent.drop (k - 1)).take (n - k)

variable {α : Type} {sent : List α} {n k : Nat} {emptied : Option Nat}

/-- What is put later changes nothing about the deliveries made. -/
theorem lagged_append (hn : n ≤ sent.length) (hk : ∀ k, emptied = some k → 1 ≤ k ∧ k ≤ n)
    (later : List α) : lagged (sent ++ later) n emptied = lagged sent n emptied := by
  cases emptied with
  | none => exact List.take_append_of_le_length hn
  | some k =>
    obtain ⟨hpos, hle⟩ := hk k rfl
    have hdrop : (sent ++ later).drop (k - 1) = sent.drop (k - 1) ++ later :=
      List.drop_append_of_le_length (by omega)
    have hroom : n - k ≤ (sent.drop (k - 1)).length := by
      rw [List.length_drop]
      omega
    rw [lagged, lagged, List.take_append_of_le_length (Nat.le_trans hle hn), hdrop,
      List.take_append_of_le_length hroom]

/-- One more delivery before the queue has been emptied. -/
theorem lagged_none_succ (hn : n < sent.length) :
    lagged sent (n + 1) none = lagged sent n none ++ [sent[n]] :=
  (List.take_append_getElem hn).symm

/-- One more delivery afterwards: the message before the one that is due. -/
theorem lagged_some_succ (hpos : 1 ≤ k) (hk : k ≤ n) (hn : n < sent.length) :
    lagged sent (n + 1) (some k) = lagged sent n (some k) ++ [sent[n - 1]] := by
  have hroom : n - k < (sent.drop (k - 1)).length := by
    rw [List.length_drop]
    omega
  have hnext : (sent.drop (k - 1))[n - k] = sent[n - 1] := by
    rw [List.getElem_drop]
    congr 1
    omega
  rw [lagged, lagged, Nat.sub_add_comm hk, ← List.take_append_getElem hroom, hnext,
    List.append_assoc]

/-- What is done to every message is done to the deliveries. -/
theorem lagged_map {β : Type} (f : α → β) (sent : List α) (n : Nat) (emptied : Option Nat) :
    lagged (sent.map f) n emptied = (lagged sent n emptied).map f := by
  cases emptied with
  | none => exact List.map_take.symm
  | some k => simp only [lagged, List.map_append, List.map_take, List.map_drop]

/-- Everything delivered has been put. -/
theorem lagged_subset : lagged sent n emptied ⊆ sent := by
  intro msg hmsg
  cases emptied with
  | none => exact List.mem_of_mem_take hmsg
  | some k =>
    rcases List.mem_append.mp hmsg with h | h
    · exact List.mem_of_mem_take h
    · exact List.mem_of_mem_drop (List.mem_of_mem_take h)

/-! ## One call

`Lags` says of a list in use what it holds and what it has delivered. A `Put` leaves the deliveries
alone; a read adds one, which is the message before the one that is due if the queue has been empty.
-/

/-- A list in use, first emptied by the delivery `emptied`. -/
structure Session.Lags (s : Session) (emptied : Option Nat) : Prop where
  holds : Holds (emptied.bind fun _ => s.sent[s.delivered.length - 1]?)
    (s.sent.drop s.delivered.length) s.pMsgList
  length : s.delivered.length ≤ s.sent.length
  delivered : s.delivered = lagged s.sent s.delivered.length emptied
  range : ∀ k, emptied = some k → 1 ≤ k ∧ k ≤ s.delivered.length

/-- Nothing put, nothing delivered, and never emptied. -/
theorem start_lags : Session.start.Lags none :=
  ⟨holds_empty, Nat.le_refl 0, rfl, fun _ h => by cases h⟩

namespace Session.Lags

variable {s : Session}

/-- A message put is due behind all the others. -/
theorem put (h : s.Lags emptied) (msg : MailBoxFormat) :
    ∃ q, s.pMsgList.put msg = .ok q ∧ Session.Lags ⟨q, s.sent ++ [msg], s.delivered⟩ emptied := by
  obtain ⟨q, hput, hq⟩ := put_holds h.holds msg
  refine ⟨q, hput, ?_, ?_, ?_, h.range⟩
  · have hstale : (emptied.bind fun _ => (s.sent ++ [msg])[s.delivered.length - 1]?)
        = emptied.bind fun _ => s.sent[s.delivered.length - 1]? := by
      cases emptied with
      | none => rfl
      | some k =>
        -- the stale message has been put long ago
        obtain ⟨hpos, hle⟩ := h.range k rfl
        have hlt : s.delivered.length - 1 < s.sent.length := by
          have := h.length
          omega
        exact List.getElem?_append_left hlt
    show Holds (emptied.bind fun _ => (s.sent ++ [msg])[s.delivered.length - 1]?)
      ((s.sent ++ [msg]).drop s.delivered.length) q
    rw [hstale, List.drop_append_of_le_length h.length]
    exact hq
  · show s.delivered.length ≤ (s.sent ++ [msg]).length
    rw [List.length_append]
    exact Nat.le_add_right_of_le h.length
  · show s.delivered = lagged (s.sent ++ [msg]) s.delivered.length emptied
    rw [lagged_append h.length h.range]
    exact h.delivered

/-- The count says whether something is left to deliver. -/
theorem getCount_pos_iff (h : s.Lags emptied) :
    s.pMsgList.getCount > 0 ↔ s.delivered.length < s.sent.length := by
  have hcount := h.holds.2
  rw [List.length_drop] at hcount
  have hle := h.length
  rw [MsgList.getCount, hcount]
  omega

/-- With everything delivered a read fails. -/
theorem read_nothing (h : s.Lags emptied) (hall : s.sent.length = s.delivered.length)
    (lpBuffer : MailBoxFormat) : myReadFile s.pMsgList lpBuffer = .ok (false, lpBuffer, s.pMsgList) := by
  have hholds := h.holds
  rw [← hall, List.drop_length] at hholds
  exact read_holds_nil hholds lpBuffer

/-- The state after one more delivery. -/
theorem of_next {q : MsgList} {msg : MailBoxFormat} (hlt : s.delivered.length < s.sent.length)
    (hholds : Holds (emptied.bind fun _ => s.sent[s.delivered.length]?)
      (s.sent.drop (s.delivered.length + 1)) q)
    (hnext : s.delivered ++ [msg] = lagged s.sent (s.delivered.length + 1) emptied)
    (hrange : ∀ k, emptied = some k → 1 ≤ k ∧ k ≤ s.delivered.length + 1) :
    Session.Lags ⟨q, s.sent, s.delivered ++ [msg]⟩ emptied := by
  have hlength : (s.delivered ++ [msg]).length = s.delivered.length + 1 := List.length_append
  refine ⟨?_, ?_, ?_, ?_⟩
  · rw [hlength]
    exact hholds
  · rw [hlength]
    exact hlt
  · rw [hlength]
    exact hnext
  · rw [hlength]
    exact hrange

/-- Otherwise it delivers, and may be the first to empty the queue. -/
theorem read (h : s.Lags emptied) (hlt : s.delivered.length < s.sent.length)
    (lpBuffer : MailBoxFormat) :
    ∃ msg q, myReadFile s.pMsgList lpBuffer = .ok (true, msg, q)
      ∧ Session.Lags ⟨q, s.sent, s.delivered ++ [msg]⟩
        (if emptied = none ∧ s.delivered.length + 1 = s.sent.length
          then some (s.delivered.length + 1) else emptied) := by
  have hholds := h.holds
  rw [List.drop_eq_getElem_cons hlt] at hholds
  obtain ⟨q, hread, hq⟩ := read_holds_cons hholds lpBuffer
  refine ⟨_, q, hread, ?_⟩
  have hdue : s.sent[s.delivered.length]? = some s.sent[s.delivered.length] :=
    List.getElem?_eq_getElem hlt
  have hrest : s.sent.drop (s.delivered.length + 1) = []
      ↔ s.delivered.length + 1 = s.sent.length := by
    rw [List.drop_eq_nil_iff]
    omega
  cases emptied with
  | none =>
    -- so far everything delivered was due
    have hnext : s.delivered ++ [s.sent[s.delivered.length]]
        = lagged s.sent (s.delivered.length + 1) none := by
      rw [lagged_none_succ hlt, ← h.delivered]
    by_cases hlast : s.delivered.length + 1 = s.sent.length
    · -- the queue is empty for the first time, and the message stays in its node
      rw [if_neg (fun hne => hne.2 (hrest.mpr hlast))] at hq
      rw [if_pos ⟨rfl, hlast⟩]
      refine of_next hlt ?_ ?_ fun k hk => ?_
      · rw [hdue]
        exact hq
      · show s.delivered ++ [s.sent[s.delivered.length]] = _
        rw [hnext, lagged, lagged, Nat.sub_self, List.take_zero, List.append_nil]
      · cases hk
        exact ⟨Nat.le_add_left 1 _, Nat.le_refl _⟩
    · rw [if_pos ⟨rfl, fun heq => hlast (hrest.mp heq)⟩] at hq
      rw [if_neg fun heq => hlast heq.2]
      exact of_next hlt hq hnext fun k hk => by cases hk
  | some k =>
    obtain ⟨hpos, hle⟩ := h.range k rfl
    -- the stale message is the one before the message that is due
    have hprevious : s.sent[s.delivered.length - 1]? = some s.sent[s.delivered.length - 1] :=
      List.getElem?_eq_getElem _
    rw [Option.bind_some, hprevious] at hq ⊢
    rw [if_neg fun hne => Option.some_ne_none _ hne.1] at hq ⊢
    refine of_next hlt ?_ ?_ fun k' hk' => ?_
    · rw [Option.bind_some, hdue]
      exact hq
    · show s.delivered ++ [s.sent[s.delivered.length - 1]] = _
      rw [lagged_some_succ hpos hle hlt, ← h.delivered]
    · cases hk'
      exact ⟨hpos, Nat.le_succ_of_le hle⟩

end Session.Lags

/-! ## The run

Which read empties the queue first, and how many reads find a message, can be counted from the calls
alone. -/

/-- The messages put by the calls. -/
def messagesPut (calls : List Call) : List MailBoxFormat :=
  calls.filterMap fun call =>
    match call with
    | .put msg => some msg
    | .read _ => none

/-- The reads that return `TRUE`, with `pending` messages in the queue at first. -/
def readsServed (pending : Nat) : List Call → Nat
  | [] => 0
  | .put _ :: calls => readsServed (pending + 1) calls
  | .read _ :: calls =>
    match pending with
    | 0 => readsServed 0 calls
    | pending + 1 => readsServed pending calls + 1

/-- The delivery that first empties the queue, where `served` have been made before. -/
def emptiedBy (served pending : Nat) : List Call → Option Nat
  | [] => none
  | .put _ :: calls => emptiedBy served (pending + 1) calls
  | .read _ :: calls =>
    match pending with
    | 0 => emptiedBy served 0 calls
    | 1 => some (served + 1)
    | pending + 2 => emptiedBy (served + 1) (pending + 1) calls

/-- A read that delivers is the first to empty the queue when it takes the last message. -/
theorem emptied_or_read {s : Session} {pending : Nat} {calls : List Call} (lpBuffer : MailBoxFormat)
    (hpending : s.sent.length = s.delivered.length + (pending + 1)) :
    (if emptied = none ∧ s.delivered.length + 1 = s.sent.length
        then some (s.delivered.length + 1) else emptied).or
        (emptiedBy (s.delivered.length + 1) pending calls)
      = emptied.or (emptiedBy s.delivered.length (pending + 1) (.read lpBuffer :: calls)) := by
  cases emptied with
  | some k => rw [if_neg fun hne => Option.some_ne_none _ hne.1, Option.some_or, Option.some_or]
  | none =>
    cases pending with
    | zero =>
      rw [if_pos ⟨rfl, hpending.symm⟩]
      rfl
    | succ pending =>
      rw [if_neg fun hlast => by omega]
      rfl

/-- **The run.** Induction on the calls. -/
theorem run_lags (calls : List Call) :
    ∀ (pending : Nat) {s : Session} {emptied : Option Nat}, s.Lags emptied →
      s.sent.length = s.delivered.length + pending →
      ∃ s', s.run calls = .ok s'
        ∧ s'.Lags (emptied.or (emptiedBy s.delivered.length pending calls))
        ∧ s'.sent = s.sent ++ messagesPut calls
        ∧ s'.delivered.length = s.delivered.length + readsServed pending calls := by
  induction calls with
  | nil =>
    intro pending s emptied h hpending
    refine ⟨s, rfl, ?_, (List.append_nil _).symm, rfl⟩
    rw [emptiedBy, Option.or_none]
    exact h
  | cons call calls ih =>
    intro pending s emptied h hpending
    cases call with
    | put msg =>
      -- one more is waiting
      obtain ⟨q, hput, hq⟩ := h.put msg
      obtain ⟨s', hrun, hs', hsent, hserved⟩ := ih (pending + 1) hq (by
        show (s.sent ++ [msg]).length = s.delivered.length + (pending + 1)
        rw [List.length_append, hpending]
        rfl)
      refine ⟨s', ?_, hs', ?_, hserved⟩
      · rw [Session.run, Session.step, hput]
        exact hrun
      · rw [hsent, List.append_assoc]
        rfl
    | read lpBuffer =>
      cases pending with
      | zero =>
        -- nothing is waiting
        have hread := h.read_nothing hpending lpBuffer
        obtain ⟨s', hrun, hs', hsent, hserved⟩ := ih 0 h hpending
        refine ⟨s', ?_, hs', hsent, hserved⟩
        rw [Session.run, Session.step, hread]
        exact hrun
      | succ pending =>
        -- one fewer is waiting, and the queue may be empty now
        obtain ⟨msg, q, hread, hq⟩ := h.read (by omega) lpBuffer
        have hlength : (s.delivered ++ [msg]).length = s.delivered.length + 1 := List.length_append
        obtain ⟨s', hrun, hs', hsent, hserved⟩ := ih pending hq (by
          show s.sent.length = (s.delivered ++ [msg]).length + pending
          omega)
        refine ⟨s', ?_, ?_, hsent, ?_⟩
        · rw [Session.run, Session.step, hread]
          exact hrun
        · dsimp only at hs'
          rw [hlength, emptied_or_read lpBuffer hpending] at hs'
          exact hs'
        · rw [hserved, hlength, readsServed]
          omega

/-- **What readers get.** -/
theorem deliveries_lag (calls : List Call) :
    ∃ s, Session.start.run calls = .ok s
      ∧ s.delivered = lagged (messagesPut calls) (readsServed 0 calls) (emptiedBy 0 0 calls) := by
  obtain ⟨s, hrun, hs, hsent, hserved⟩ := run_lags calls 0 start_lags rfl
  refine ⟨s, hrun, ?_⟩
  have hdelivered := hs.delivered
  rw [hsent, hserved] at hdelivered
  exact hdelivered.trans (congrArg₂ (lagged _) (Nat.zero_add _) (Option.none_or))

end OsLab.Twitter
