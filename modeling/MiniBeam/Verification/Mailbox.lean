import MiniBeam.Library.RingQueue
import MiniBeam.Model.Mailbox

/-! A mailbox is a bounded first-in first-out queue of valid commands. -/

namespace MiniBeam

/-- What a mailbox is for: at most 32 commands, all of them valid, oldest first. -/
structure Inbox where
  queue : List Command
  bounded : queue.length ≤ mailboxCapacity
  valid : ∀ cmd ∈ queue, mbValidateCommand cmd = .ok

namespace Inbox

def empty : Inbox := ⟨[], Nat.zero_le _, by simp⟩

/-- A push appends a valid command while there is room. -/
def push (q : Inbox) (cmd : Command) : Status × Inbox :=
  if hv : mbValidateCommand cmd = .ok then
    if hb : q.queue.length < mailboxCapacity then
      (.ok, ⟨q.queue ++ [cmd], by simpa using Nat.succ_le_of_lt hb, by
        intro c hc
        rcases List.mem_append.mp hc with hc | hc
        · exact q.valid c hc
        · rwa [List.mem_singleton.mp hc]⟩)
    else (.mailboxFull, q)
  else (mbValidateCommand cmd, q)

/-- A pop removes the oldest command. -/
def pop (q : Inbox) : Option (Command × Inbox) :=
  match h : q.queue with
  | [] => none
  | cmd :: rest => some (cmd, ⟨rest,
      (Nat.le_succ _).trans (by simpa [h] using q.bounded),
      fun c hc => q.valid c (by rw [h]; exact List.mem_cons_of_mem _ hc)⟩)

@[ext] theorem ext {q r : Inbox} (h : q.queue = r.queue) : q = r := by
  cases q
  cases r
  congr

end Inbox

/-- Validation answers `MB_OK`, `MB_BAD_ARGUMENT` or `MB_INVALID_COMMAND`. -/
theorem mbValidateCommand_ne_full (cmd : Command) : mbValidateCommand cmd ≠ .mailboxFull := by
  unfold mbValidateCommand
  repeat' split
  all_goals decide

namespace Inbox

theorem push_full_iff (q : Inbox) (cmd : Command) :
    (q.push cmd).1 = .mailboxFull ↔
      mbValidateCommand cmd = .ok ∧ q.queue.length = mailboxCapacity := by
  have hle := q.bounded
  unfold push
  split
  · split <;> simp_all <;> omega
  · simp_all [mbValidateCommand_ne_full]

/-- Only a push that answers `MB_OK` changes the queue, and it appends the command. -/
theorem push_queue (q : Inbox) (cmd : Command) :
    (q.push cmd).2.queue = if (q.push cmd).1 = .ok then q.queue ++ [cmd] else q.queue := by
  unfold push
  split
  · split <;> simp
  · simp_all

theorem push_ok_valid {q : Inbox} {cmd : Command} (h : (q.push cmd).1 = .ok) :
    mbValidateCommand cmd = .ok := by
  unfold push at h
  split at h
  · assumption
  · exact h

theorem pop_none_iff (q : Inbox) : q.pop = none ↔ q.queue = [] := by
  unfold pop
  split <;> simp_all

theorem pop_queue {q r : Inbox} {cmd : Command} (h : q.pop = some (cmd, r)) :
    q.queue = cmd :: r.queue := by
  unfold pop at h
  split at h
  · exact absurd h (by simp)
  · rename_i hq
    simp only [Option.some.injEq, Prod.mk.injEq] at h
    rw [← h.1, ← h.2]
    exact hq

end Inbox

namespace Mailbox

/-- The commands in the ring, oldest first. -/
def queue (mb : Mailbox) : List Command := RingQueue.contents mb.items mb.head mb.count

/-- The ring indices of `mb` are consistent and it holds the commands of `q`. -/
structure Holds (mb : Mailbox) (q : Inbox) : Prop where
  ring : RingQueue.Valid mailboxCapacity mb.head mb.tail mb.count
  queue_eq : mb.queue = q.queue

theorem zero_holds : Mailbox.zero.Holds Inbox.empty :=
  ⟨RingQueue.Valid.empty (by decide), rfl⟩

theorem Holds.count_eq {mb : Mailbox} {q : Inbox} (h : mb.Holds q) :
    mb.count = q.queue.length := by
  rw [← h.queue_eq, queue, RingQueue.length_contents _ (by decide)]

/-- The ring buffer pushes as the queue does, and a refused push changes nothing. -/
theorem push_refines {mb : Mailbox} {q : Inbox} (h : mb.Holds q) (cmd : Command) :
    ∃ mb', mbMailboxPushRaw mb cmd = .ok ((q.push cmd).1, mb') ∧ mb'.Holds (q.push cmd).2 ∧
      ((q.push cmd).1 ≠ .ok → mb' = mb) := by
  have hcount := h.count_eq
  unfold mbMailboxPushRaw Inbox.push
  by_cases hv : mbValidateCommand cmd = .ok
  · by_cases hb : q.queue.length < mailboxCapacity
    · have hlt : mb.count < mailboxCapacity := hcount ▸ hb
      have htail := h.ring.tail_lt
      refine ⟨{ mb with
        items := mb.items.set mb.tail cmd htail
        tail := (mb.tail + 1) % mailboxCapacity
        count := mb.count + 1 }, ?_, ⟨?_, ?_⟩, ?_⟩
      · simp [hv, hb, htail, Nat.not_le_of_lt hlt]
      · exact h.ring.push hlt
      · simp only [hv, hb, dite_true, queue]
        rw [RingQueue.contents_push h.ring hlt, ← h.queue_eq, queue]
      · simp [hv, hb]
    · refine ⟨mb, ?_, ?_, fun _ => rfl⟩
      · simp [hv, hb, hcount, Nat.le_of_not_lt hb]
      · simpa [hv, hb] using h
  · refine ⟨mb, ?_, ?_, fun _ => rfl⟩
    · simp [hv]
    · simpa [hv] using h

/-- The ring buffer pops as the queue does. -/
theorem pop_refines {mb : Mailbox} {q : Inbox} (h : mb.Holds q) :
    match q.pop with
    | none => mbMailboxPopRaw mb = .ok none
    | some (cmd, r) => ∃ mb', mbMailboxPopRaw mb = .ok (some (cmd, mb')) ∧ mb'.Holds r := by
  have hcount := h.count_eq
  split
  · rename_i hp
    rw [Inbox.pop_none_iff] at hp
    simp [mbMailboxPopRaw, hcount, hp]
  · rename_i cmd r hp
    have hq := Inbox.pop_queue hp
    have hpos : 0 < mb.count := by simp [hcount, hq]
    obtain ⟨a, ha, hc⟩ := RingQueue.contents_pop mb.items h.ring hpos
    have heq : a :: RingQueue.contents mb.items ((mb.head + 1) % mailboxCapacity) (mb.count - 1) =
        cmd :: r.queue := by rw [← hc, ← hq, ← h.queue_eq, queue]
    obtain ⟨rfl, hrest⟩ := List.cons.inj heq
    refine ⟨{ mb with head := (mb.head + 1) % mailboxCapacity, count := mb.count - 1 }, ?_, ?_, ?_⟩
    · simp [mbMailboxPopRaw, ha, Nat.ne_of_gt hpos]
    · exact h.ring.pop hpos
    · simpa only [queue] using hrest

/-- A popped command is valid. -/
theorem Holds.popped_valid {mb mb' : Mailbox} {q : Inbox} {cmd : Command} (h : mb.Holds q)
    (hpop : mbMailboxPopRaw mb = .ok (some (cmd, mb'))) : mbValidateCommand cmd = .ok := by
  have href := pop_refines h
  split at href
  · simp [href] at hpop
  · rename_i cmd' r hp
    obtain ⟨mb'', hmb, -⟩ := href
    simp only [hmb, Except.ok.injEq, Option.some.injEq, Prod.mk.injEq] at hpop
    refine q.valid cmd ?_
    rw [Inbox.pop_queue hp, ← hpop.1]
    exact List.mem_cons_self

/-- The command at the front of the queue is valid, and the next to be popped. -/
theorem Holds.pop_front {mb : Mailbox} {q : Inbox} {cmd : Command} {rest : List Command}
    (h : mb.Holds q) (hq : q.queue = cmd :: rest) :
    mbValidateCommand cmd = .ok ∧ ∃ mb', mbMailboxPopRaw mb = .ok (some (cmd, mb')) := by
  refine ⟨q.valid cmd (by rw [hq]; exact List.mem_cons_self), ?_⟩
  have hpop := pop_refines h
  split at hpop
  · rename_i hnone
    rw [Inbox.pop_none_iff, hq] at hnone
    cases hnone
  · rename_i cmd' r hsome
    obtain ⟨mb', hmb, -⟩ := hpop
    rw [Inbox.pop_queue hsome] at hq
    cases hq
    exact ⟨mb', hmb⟩

end Mailbox

end MiniBeam
