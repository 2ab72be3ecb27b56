import MiniBeam.Verification.Mailbox
import MiniBeam.Verification.Scheduler.Table

/-! Mailboxes over whole runs: what was delivered to a process is what it received and
then what is still queued. -/

namespace MiniBeam

/-! ### Deliveries and receipts in a trace -/

/-- The command an event puts into the mailbox of `pid`. -/
def Event.delivered (pid : Byte) : Event → Option Command
  | .push owner cmd rc => if owner = pid ∧ rc = .ok then some cmd else none
  | _ => none

/-- The command an event takes out of the mailbox of `pid`. -/
def Event.received (pid : Byte) : Event → Option Command
  | .pop owner cmd => if owner = pid then some cmd else none
  | _ => none

/-- The commands pushed to `pid` with result `MB_OK`, in order. -/
def delivered (pid : Byte) (t : Trace) : List Command := t.filterMap (Event.delivered pid)

/-- The commands popped by the `RECV_CMD`s of `pid`, in order. -/
def received (pid : Byte) (t : Trace) : List Command := t.filterMap (Event.received pid)

@[simp] theorem delivered_append (pid : Byte) (t u : Trace) :
    delivered pid (t ++ u) = delivered pid t ++ delivered pid u := List.filterMap_append ..

@[simp] theorem received_append (pid : Byte) (t u : Trace) :
    received pid (t ++ u) = received pid t ++ received pid u := List.filterMap_append ..

@[simp] theorem delivered_nil (pid : Byte) : delivered pid [] = [] := rfl
@[simp] theorem received_nil (pid : Byte) : received pid [] = [] := rfl

@[simp] theorem delivered_push (pid owner : Byte) (cmd : Command) (rc : Status) :
    delivered pid [.push owner cmd rc] = if owner = pid ∧ rc = .ok then [cmd] else [] := by
  by_cases h : owner = pid ∧ rc = .ok <;> simp [delivered, Event.delivered, h]

@[simp] theorem received_push (pid owner : Byte) (cmd : Command) (rc : Status) :
    received pid [.push owner cmd rc] = [] := rfl

@[simp] theorem delivered_pop (pid owner : Byte) (cmd : Command) :
    delivered pid [.pop owner cmd] = [] := rfl

@[simp] theorem received_pop (pid owner : Byte) (cmd : Command) :
    received pid [.pop owner cmd] = if owner = pid then [cmd] else [] := by
  by_cases h : owner = pid <;> simp [received, Event.received, h]

@[simp] theorem delivered_hal (pid owner : Byte) (call : HalCall) (reply : HalReply) :
    delivered pid [.hal owner call reply] = [] := rfl

@[simp] theorem received_hal (pid owner : Byte) (call : HalCall) (reply : HalReply) :
    received pid [.hal owner call reply] = [] := rfl

theorem delivered_calls {pid owner : Byte} {events : List Event}
    (h : ∀ e ∈ events, ∃ call reply, e = .hal owner call reply) : delivered pid events = [] := by
  refine List.filterMap_eq_nil_iff.mpr fun e he => ?_
  obtain ⟨call, reply, rfl⟩ := h e he
  rfl

theorem received_calls {pid owner : Byte} {events : List Event}
    (h : ∀ e ∈ events, ∃ call reply, e = .hal owner call reply) : received pid events = [] := by
  refine List.filterMap_eq_nil_iff.mpr fun e he => ?_
  obtain ⟨call, reply, rfl⟩ := h e he
  rfl

/-- A process delivers nothing by working on itself. -/
theorem Intake.delivered {p p' : Process} {events : List Event} (h : Intake p p' events)
    (pid : Byte) : delivered pid events = [] := by
  cases h with
  | keep _ hm hc => exact delivered_calls hc
  | pop cmd hp => rfl

/-- A process takes commands out of its own mailbox only. -/
theorem Intake.received_ne {p p' : Process} {events : List Event} (h : Intake p p' events)
    {pid : Byte} (hne : p.pid ≠ pid) : received pid events = [] := by
  cases h with
  | keep _ hm hc => exact received_calls hc
  | pop cmd hp => simp [hne]

/-! ### The ledger of a mailbox -/

section Balance

variable {pid : Byte} {mb mb' : Mailbox} {t : Trace} {q : Inbox} {cmd : Command}

/-- A push keeps the balance of what was delivered, received and queued. -/
theorem balance_push {rc : Status} (hq : mb.Holds q)
    (hb : delivered pid t = received pid t ++ q.queue)
    (hp : mbMailboxPushRaw mb cmd = .ok (rc, mb')) :
    rc = (q.push cmd).1 ∧ mb'.Holds (q.push cmd).2 ∧
      delivered pid (t ++ [.push pid cmd rc]) =
        received pid (t ++ [.push pid cmd rc]) ++ (q.push cmd).2.queue := by
  obtain ⟨mb'', hmb, hholds, -⟩ := Mailbox.push_refines hq cmd
  rw [hmb] at hp
  cases hp
  refine ⟨rfl, hholds, ?_⟩
  rw [Inbox.push_queue]
  by_cases hok : (q.push cmd).1 = .ok <;> simp [hb, hok]

theorem balance_pop (hq : mb.Holds q) (hb : delivered pid t = received pid t ++ q.queue)
    (hp : mbMailboxPopRaw mb = .ok (some (cmd, mb'))) : ∃ r, mb'.Holds r ∧
      delivered pid (t ++ [.pop pid cmd]) = received pid (t ++ [.pop pid cmd]) ++ r.queue := by
  have href := Mailbox.pop_refines hq
  split at href
  · rw [href] at hp
    cases hp
  · rename_i cmd' r hpop
    obtain ⟨mb'', hmb, hholds⟩ := href
    rw [hmb] at hp
    cases hp
    exact ⟨r, hholds, by simp [hb, Inbox.pop_queue hpop]⟩

/-- What a process does to its own mailbox keeps the balance. -/
theorem balance_intake {p p' : Process} {events : List Event} (hq : p.mailbox.Holds q)
    (hb : delivered p.pid t = received p.pid t ++ q.queue) (hi : Intake p p' events) :
    ∃ r, p'.mailbox.Holds r ∧
      delivered p.pid (t ++ events) = received p.pid (t ++ events) ++ r.queue := by
  cases hi with
  | keep _ hm hc =>
      rw [hm]
      exact ⟨q, hq, by simp [hb, delivered_calls hc, received_calls hc]⟩
  | pop cmd hp => exact balance_pop hq hb hp

end Balance

/-- A mailbox holds what was delivered and not yet received. -/
structure Ledger (i : Slot) (mb : Mailbox) (t : Trace) (q : Inbox) : Prop where
  holds : mb.Holds q
  balance : delivered i.pid t = received i.pid t ++ q.queue

theorem Ledger.quiet {i : Slot} {mb : Mailbox} {t : Trace} {q : Inbox} (h : Ledger i mb t q)
    {events : List Event} (hd : delivered i.pid events = []) (hr : received i.pid events = []) :
    Ledger i mb (t ++ events) q :=
  ⟨h.holds, by simpa [hd, hr] using h.balance⟩

theorem Ledger.own {i : Slot} {p p' : Process} {t : Trace} {q : Inbox} {events : List Event}
    (h : Ledger i p.mailbox t q) (hpid : p.pid = i.pid) (hi : Intake p p' events) :
    ∃ q', Ledger i p'.mailbox (t ++ events) q' := by
  have hbalance := h.balance
  rw [← hpid] at hbalance
  obtain ⟨r, hholds, hrest⟩ := balance_intake h.holds hbalance hi
  rw [hpid] at hrest
  exact ⟨r, hholds, hrest⟩

theorem Ledger.push {i : Slot} {mb mb' : Mailbox} {t : Trace} {q : Inbox} {cmd : Command}
    {rc : Status} (h : Ledger i mb t q) (hp : mbMailboxPushRaw mb cmd = .ok (rc, mb')) :
    rc = (q.push cmd).1 ∧ Ledger i mb' (t ++ [.push i.pid cmd rc]) (q.push cmd).2 := by
  obtain ⟨hrc, hholds, hbalance⟩ := balance_push h.holds h.balance hp
  exact ⟨hrc, hholds, hbalance⟩

/-- Every mailbox of the table has its ledger. -/
def Ledgers (sys : System) : Prop := ∀ i, ∃ q, Ledger i (sys.sched.proc i).mailbox sys.trace q

theorem Ledgers.spawn {sys : System} (h : Ledgers sys) (ht : Table sys) (program : List Byte) :
    Ledgers { sys with sched := (mbSchedSpawn sys.sched program).2 } := by
  rcases mbSchedSpawn_cases sys.sched program with hs | ⟨i, hfree, hs⟩
  · rw [hs]
    exact h
  · rw [hs]
    intro j
    show ∃ q, Ledger j ((sys.sched.setProc i _).proc j).mailbox sys.trace q
    rw [Scheduler.proc_setProc]
    split
    · rename_i hj
      have hz := (ht.entry i).free hfree
      simpa [hj, hz, mbProcInit, Process.zero] using h i
    · exact h j

theorem wake_mailbox (now : BitVec 32) (p : Process) : (wake now p).mailbox = p.mailbox := by
  rcases wake_cases now p with h | ⟨-, h⟩ <;> rw [h]

/-- The table and the ledgers are an invariant. -/
theorem ledgers_invariant : Invariant fun sys => Table sys ∧ Ledgers sys where
  init := ⟨table_invariant.init, fun i => ⟨Inbox.empty, by
    rw [proc_init]
    exact ⟨Mailbox.zero_holds, rfl⟩⟩⟩
  spawn sys program h := ⟨table_invariant.spawn sys program h.1, h.2.spawn h.1 program⟩
  wake hal sys h := by
    refine ⟨table_invariant.wake hal sys h.1, fun i => ?_⟩
    obtain ⟨q, hq⟩ := h.2 i
    refine ⟨q, ?_⟩
    rw [proc_wakeSleepers, wake_mailbox]
    exact hq.quiet rfl rfl
  select sys current hc h := ⟨table_invariant.select sys current hc h.1, h.2⟩
  own self sys sys' hm h := by
    refine ⟨table_invariant.own self sys sys' hm h.1, fun i => ?_⟩
    obtain ⟨ready, change⟩ := hm
    rename_i s t p' events
    have hpid : (s.proc self).pid = self.pid := (h.1.entry self).pid (by simp [ready])
    obtain ⟨q, hq⟩ := h.2 i
    show ∃ q, Ledger i ((s.setProc self p').proc i).mailbox (t ++ events) q
    rw [Scheduler.proc_setProc]
    split
    · rename_i hi
      subst hi
      exact hq.own hpid change.intake
    · rename_i hi
      have hne : (s.proc self).pid ≠ i.pid := fun he => hi (Slot.pid_inj (hpid ▸ he)).symm
      exact ⟨q, hq.quiet (change.intake.delivered _) (change.intake.received_ne hne)⟩
  push sys sys' hm h := by
    refine ⟨table_invariant.push sys sys' hm h.1, fun i => ?_⟩
    obtain ⟨hocc, hd⟩ := hm
    rename_i s s' t target cmd rc
    have hpid : (s.proc target).pid = target.pid := (h.1.entry target).pid hocc
    obtain ⟨mb, state, hmb, -, rfl⟩ := deliver_eq hd
    obtain ⟨q, hq⟩ := h.2 i
    dsimp only
    rw [Scheduler.proc_setProc, hpid]
    split
    · rename_i hi
      subst hi
      exact ⟨_, (hq.push hmb).2⟩
    · rename_i hi
      have hne : target.pid ≠ i.pid := fun he => hi (Slot.pid_inj he).symm
      exact ⟨q, hq.quiet (by simp [hne]) rfl⟩

end MiniBeam
