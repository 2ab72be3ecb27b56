import MiniBeam.Verification.Scheduler.Isolation

/-! Mailboxes refine bounded first-in first-out queues over whole runs. -/

namespace MiniBeam

/-- What a push of `cmd` with result `rc` does to the mailboxes; `target` is the entry
the pid names, if it names one. -/
structure Pushed (before after : Scheduler) (target : Option Slot) (cmd : Command)
    (rc : Status) : Prop where
  refused : rc ≠ .ok → ∀ j, (after.proc j).mailbox = (before.proc j).mailbox
  full : rc = .mailboxFull ↔ mbValidateCommand cmd = .ok ∧
    ∃ i, target = some i ∧ (before.proc i).mailbox.queue.length = mailboxCapacity
  accepted : rc = .ok → ∃ i, target = some i ∧
    (after.proc i).mailbox.queue = (before.proc i).mailbox.queue ++ [cmd] ∧
    ∀ j, j ≠ i → (after.proc j).mailbox = (before.proc j).mailbox

/-- A pid that names no process refuses the command. -/
theorem Pushed.unknown {before after : Scheduler} (cmd : Command)
    (h : ∀ j, (after.proc j).mailbox = (before.proc j).mailbox) :
    Pushed before after none cmd .badPid :=
  ⟨fun _ => h, by simp, by simp⟩

/-- Only the mailboxes of the tables matter. -/
theorem Pushed.congr {before before' after after' : Scheduler} {target : Option Slot}
    {cmd : Command} {rc : Status} (h : Pushed before after target cmd rc)
    (hbefore : ∀ j, (before'.proc j).mailbox = (before.proc j).mailbox)
    (hafter : ∀ j, (after'.proc j).mailbox = (after.proc j).mailbox) :
    Pushed before' after' target cmd rc := by
  constructor
  case refused =>
    intro hne j
    rw [hbefore, hafter, h.refused hne]
  case full =>
    simpa only [hbefore] using h.full
  case accepted =>
    simpa only [hbefore, hafter] using h.accepted

theorem deliver_pushed {s s' : Scheduler} {t : Trace} {target : Slot} {cmd : Command}
    {rc : Status} (hl : Ledgers ⟨s, t⟩) (h : deliver s target cmd = .ok (rc, s')) :
    Pushed s s' (some target) cmd rc := by
  obtain ⟨mb, state, hmb, -, rfl⟩ := deliver_eq h
  obtain ⟨q, hq⟩ := hl target
  obtain ⟨hrc, hq'⟩ := hq.push hmb
  have hqueue : (s.proc target).mailbox.queue = q.queue := hq.holds.queue_eq
  have hother : ∀ j, j ≠ target →
      ((s.setProc target { s.proc target with mailbox := mb, state := state }).proc j).mailbox =
        (s.proc j).mailbox := fun j hj => by rw [Scheduler.proc_setProc_ne s _ hj]
  refine ⟨fun hne j => ?_, ?_, fun hok => ⟨target, rfl, ?_, hother⟩⟩
  · by_cases hj : j = target
    · subst hj
      rw [Scheduler.proc_setProc_self]
      exact mbMailboxPushRaw_refused hmb hne
    · exact hother j hj
  · rw [hrc, Inbox.push_full_iff, ← hqueue]
    simp
  · rw [Scheduler.proc_setProc_self, hqueue]
    show mb.queue = _
    rw [hq'.holds.queue_eq, Inbox.push_queue, if_pos (hrc ▸ hok)]

/-- A push through the scheduler. -/
theorem mbSchedSend_pushed {sys sys' : System} {dst : Byte} {cmd : Command} {rc : Status}
    (hl : Ledgers sys) (h : mbSchedSend sys dst cmd = .ok (rc, sys')) :
    ∃ target, mbSchedProc sys.sched dst = .ok target ∧
      Pushed sys.sched sys'.sched target cmd rc := by
  rcases mbSchedSend_cases h with ⟨hf, rfl, rfl⟩ | ⟨target, after, hf, hd, rfl⟩
  · exact ⟨none, hf, Pushed.unknown cmd fun _ => rfl⟩
  · exact ⟨some target, hf, deliver_pushed hl hd⟩

/-! ### `SEND` -/

theorem answer_reg (s : Scheduler) (self : Slot) (rPid : Reg) (rc : Status) :
    ((answer s self rPid rc).proc self).reg rPid = makeSmallint rc.code := by
  simp [answer]

theorem answer_mailbox (s : Scheduler) (self : Slot) (rPid : Reg) (rc : Status) (j : Slot) :
    ((answer s self rPid rc).proc j).mailbox = (s.proc j).mailbox := by
  rw [answer, Scheduler.proc_setProc]
  split
  · rename_i hj
    rw [hj]
    rfl
  · rfl

/-- The table and the trace once the process in slot `self` has fetched its instruction. -/
def System.fetched (sys : System) (self : Slot) (next : ℕ) : System :=
  ⟨sys.sched.setProc self ((sys.sched.proc self).setPc next), sys.trace⟩

theorem System.fetched_mailbox (sys : System) (self : Slot) (next : ℕ) (j : Slot) :
    ((sys.fetched self next).sched.proc j).mailbox = (sys.sched.proc j).mailbox := by
  rw [System.fetched, Scheduler.proc_setProc]
  split
  · rename_i hj
    rw [hj, Process.setPc_mailbox]
  · rfl

theorem System.fetched_free {sys : System} {self : Slot} {next : ℕ}
    (h : (sys.sched.proc self).state = .ready) (i : Slot) :
    ((sys.fetched self next).sched.proc i).state = .free ↔ (sys.sched.proc i).state = .free :=
  Scheduler.setProc_free (by simp [h]) (by simp [Process.setPc, h]) i

/-- A fetch keeps what holds of every move of the running process. -/
theorem Dispatched.fetched {hal : Hal} {self : Slot} {sys : System} (h : Dispatched hal self sys)
    (next : ℕ) : Table (sys.fetched self next) ∧ Ledgers (sys.fetched self next) :=
  ledgers_invariant.moves (Moves.quiet h.ready (quiet_setPc _ next))
    (ledgers_invariant.dispatched h)

section Send

variable {hal : Hal} {self : Slot} {sys sys' : System} {rc : Status}
  {rPid rType rA rB rC rD : Reg} {next : ℕ}

/-- A `SEND` about to be executed, as a step. -/
theorem mbProcStep_send (hh : (sys.sched.proc self).halted = false)
    (hd : decode (sys.sched.proc self).program (sys.sched.proc self).pc =
      (.ok (.send rPid rType rA rB rC rD), next))
    (h : mbProcStep hal (sys.machine self) = .ok (rc, sys'.machine self)) :
    ∃ events, sendFrom (sys.sched.setProc self ((sys.sched.proc self).setPc next)) self rPid rType
      rA rB rC rD = .ok (sys'.sched, events) ∧ sys'.trace = sys.trace ++ events ∧ rc = .ok := by
  have hp : (sys.machine self).proc = sys.sched.proc self := rfl
  rw [mbProcStep_eq, hp, hh, hd] at h
  obtain ⟨⟨after, events⟩, hsend, h⟩ := bind_eq_ok.mp h
  simp only [pure_ok, Except.ok.injEq, Prod.mk.injEq, System.machine, Machine.mk.injEq,
    Context.sched.injEq] at h
  obtain ⟨rfl, ⟨rfl, -⟩, htrace⟩ := h
  exact ⟨events, hsend, htrace.symm, rfl⟩

/-- A `SEND` is a call of `mb_sched_send`, and its result in the register of the pid. -/
theorem mbProcStep_send_eq (hh : (sys.sched.proc self).halted = false)
    (hd : decode (sys.sched.proc self).program (sys.sched.proc self).pc =
      (.ok (.send rPid rType rA rB rC rD), next))
    (h : mbProcStep hal (sys.machine self) = .ok (rc, sys'.machine self)) :
    ∃ code after, mbSchedSend (sys.fetched self next)
        (((sys.sched.proc self).int rPid).setWidth 8)
        ((sys.sched.proc self).command rType rA rB rC rD) = .ok (code, after) ∧
      sys' = ⟨answer after.sched self rPid code, after.trace⟩ := by
  obtain ⟨events, hsend, htrace, -⟩ := mbProcStep_send hh hd h
  rcases sys' with ⟨s', t'⟩
  obtain rfl : t' = sys.trace ++ events := htrace
  obtain ⟨found, hfound, hsend⟩ := bind_eq_ok.mp hsend
  rw [Scheduler.proc_setProc_self] at hfound hsend
  have hfound' : mbSchedProc (sys.fetched self next).sched
      (((sys.sched.proc self).int rPid).setWidth 8) = .ok found := hfound
  rw [mbSchedSend_eq, hfound']
  cases found with
  | none =>
      cases hsend
      exact ⟨.badPid, sys.fetched self next, rfl, by rw [List.append_nil]; rfl⟩
  | some target =>
      obtain ⟨⟨code, after⟩, hdeliver, hsend⟩ := bind_eq_ok.mp hsend
      injection hsend with hsend
      injection hsend with hsched hevents
      have hdeliver' : deliver (sys.fetched self next).sched target
          ((sys.sched.proc self).command rType rA rB rC rD) = .ok (code, after) := hdeliver
      refine ⟨code, ⟨after, sys.trace ++ events⟩, ?_, congrArg (System.mk · _) hsched.symm⟩
      rw [ok_bind]
      dsimp only
      rw [hdeliver', ← hevents]
      rfl

/-- The push of a `SEND`: its result code stands in the register of the pid. -/
theorem mbProcStep_pushed (h : Dispatched hal self sys)
    (hd : decode (sys.sched.proc self).program (sys.sched.proc self).pc =
      (.ok (.send rPid rType rA rB rC rD), next))
    (hstep : mbProcStep hal (sys.machine self) = .ok (rc, sys'.machine self)) :
    ∃ code target, (sys'.sched.proc self).reg rPid = makeSmallint code.code ∧
      mbSchedProc sys.sched (((sys.sched.proc self).int rPid).setWidth 8) = .ok target ∧
      Pushed sys.sched sys'.sched target ((sys.sched.proc self).command rType rA rB rC rD)
        code := by
  obtain ⟨code, after, hsend, rfl⟩ := mbProcStep_send_eq h.running hd hstep
  obtain ⟨target, htarget, hpushed⟩ := mbSchedSend_pushed (h.fetched next).2 hsend
  rw [mbSchedProc_congr (System.fetched_free h.ready)] at htarget
  refine ⟨code, target, answer_reg _ _ _ _, htarget, hpushed.congr (fun j => ?_) fun j => ?_⟩
  · exact (System.fetched_mailbox sys self next j).symm
  · exact answer_mailbox after.sched self rPid code j

end Send

/-! ### Runs -/

/-- In every state of every run: what each process received, followed by its queue, is
what was delivered to it; the queue holds valid commands only; every push through the
scheduler or a `SEND` appends its command or changes no mailbox, and is refused for
want of room exactly at 32 queued commands; and a spawn keeps the mailboxes in use. -/
theorem mailboxes_refine_queues {hal : Hal} {sys : System} (h : Reached hal sys) :
    (∀ i, received i.pid sys.trace ++ (sys.sched.proc i).mailbox.queue =
      delivered i.pid sys.trace) ∧
    (∀ i, ∀ cmd ∈ (sys.sched.proc i).mailbox.queue, mbValidateCommand cmd = .ok) ∧
    (∀ i cmd mb, mbMailboxPopRaw (sys.sched.proc i).mailbox = .ok (some (cmd, mb)) →
      mbValidateCommand cmd = .ok) ∧
    (∀ dst cmd rc sys', mbSchedSend sys dst cmd = .ok (rc, sys') →
      ∃ target, mbSchedProc sys.sched dst = .ok target ∧
        Pushed sys.sched sys'.sched target cmd rc) ∧
    (∀ self rPid rType rA rB rC rD pc rc (sys' : System), Dispatched hal self sys →
      decode (sys.sched.proc self).program (sys.sched.proc self).pc =
        (.ok (.send rPid rType rA rB rC rD), pc) →
      mbProcStep hal (sys.machine self) = .ok (rc, sys'.machine self) →
      ∃ code target, (sys'.sched.proc self).reg rPid = makeSmallint code.code ∧
        mbSchedProc sys.sched (((sys.sched.proc self).int rPid).setWidth 8) = .ok target ∧
        Pushed sys.sched sys'.sched target
          ((sys.sched.proc self).command rType rA rB rC rD) code) ∧
    (∀ program i, (sys.sched.proc i).state ≠ .free →
      ((mbSchedSpawn sys.sched program).2.proc i).mailbox = (sys.sched.proc i).mailbox) := by
  obtain ⟨ht, hl⟩ := ledgers_invariant.reached h
  refine ⟨fun i => ?_, fun i cmd hcmd => ?_, fun i cmd mb hpop => ?_,
    fun dst cmd rc sys' hsend => ?_, ?_, fun program i hi => ?_⟩
  · obtain ⟨q, hq⟩ := hl i
    rw [hq.balance, hq.holds.queue_eq]
  · obtain ⟨q, hq⟩ := hl i
    exact q.valid cmd (hq.holds.queue_eq ▸ hcmd)
  · obtain ⟨q, hq⟩ := hl i
    exact hq.holds.popped_valid hpop
  · exact mbSchedSend_pushed hl hsend
  · intro self rPid rType rA rB rC rD pc rc sys' hd hdec hstep
    exact mbProcStep_pushed hd hdec hstep
  · rcases mbSchedSpawn_cases sys.sched program with hs | ⟨k, hfree, hs⟩
    · rw [hs]
    · rw [hs]
      show ((sys.sched.setProc k _).proc i).mailbox = _
      exact congrArg _ (Scheduler.proc_setProc_ne _ _ fun he => hi (by rw [he]; exact hfree))

theorem mailboxes_refine_queues_receiver :
    ∃ sys, runCalls idleHal System.init
        [.spawn receiver, .send 1 ⟨1, 2, 1, 0, 0⟩, .send 1 ⟨1, 3, 0, 0, 0⟩, .tick] = .ok sys ∧
      received (Slot.pid 0) sys.trace = [⟨1, 2, 1, 0, 0⟩] ∧
      received (Slot.pid 0) sys.trace ++ (sys.sched.proc 0).mailbox.queue =
        delivered (Slot.pid 0) sys.trace := by
  obtain ⟨sys, h, hr⟩ := exists_ok_of_map (runCalls idleHal System.init
    [.spawn receiver, .send 1 ⟨1, 2, 1, 0, 0⟩, .send 1 ⟨1, 3, 0, 0, 0⟩, .tick])
    (fun sys => received (Slot.pid 0) sys.trace) [⟨1, 2, 1, 0, 0⟩] (by decide +kernel)
  exact ⟨sys, h, hr, (mailboxes_refine_queues (.inl ⟨_, h⟩)).1 0⟩

end MiniBeam
