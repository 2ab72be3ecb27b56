import MiniBeam.Model.Zephyr
import MiniBeam.Verification.Scheduler.Send

/-! Commands that native code queues through `os2_enqueue_*`: the test for a full mailbox in front
of `mb_sched_send`, and what the counters say of the commands over a run. -/

namespace MiniBeam

/-! ### One call -/

/-- The counters once a call has answered `rc`. -/
def Os2MbStats.count (stats : Os2MbStats) (rc : Status) : Os2MbStats where
  attempted := stats.attempted + 1
  pushed := if rc = .ok then stats.pushed + 1 else stats.pushed
  droppedFull := if rc = .mailboxFull then stats.droppedFull + 1 else stats.droppedFull

/-- The test for room. -/
def noRoom (s : Scheduler) : Option Slot → Prop
  | none => False
  | some p => (s.proc p).mailbox.count ≥ mailboxCapacity

instance (s : Scheduler) (found : Option Slot) : Decidable (noRoom s found) :=
  match found with
  | none => instDecidableFalse
  | some p => inferInstanceAs (Decidable ((s.proc p).mailbox.count ≥ mailboxCapacity))

section Call

variable {sys sys' : System} {pid : Byte} {cmd : Command} {stats stats' : Os2MbStats} {rc : Status}

theorem os2Enqueue_eq (sys : System) (pid : Byte) (cmd : Command) (stats : Os2MbStats) :
    os2Enqueue sys pid cmd stats = do
      let found ← mbSchedProc sys.sched pid
      if noRoom sys.sched found then return (.mailboxFull, sys, stats.count .mailboxFull)
      else
        let (rc, sys') ← mbSchedSend sys pid cmd
        return (rc, sys', stats.count rc) := by
  unfold os2Enqueue
  rcases mbSchedProc sys.sched pid with f | none | p
  · rfl
  · show mbSchedSend sys pid cmd >>= _ = mbSchedSend sys pid cmd >>= _
    congr 1
    funext ⟨code, after⟩
    cases code <;> rfl
  · simp only [ok_bind]
    by_cases hfull : (sys.sched.proc p).mailbox.count ≥ mailboxCapacity
    · rw [if_pos (decide_eq_true hfull), if_pos (show noRoom sys.sched (some p) from hfull)]
      rfl
    · rw [if_neg (by simpa using hfull), if_neg (show ¬ noRoom sys.sched (some p) from hfull)]
      congr 1
      funext ⟨code, after⟩
      cases code <;> rfl

/-- A call counts its answer, and is a push through the scheduler or nothing. -/
theorem os2Enqueue_cases (h : os2Enqueue sys pid cmd stats = .ok (rc, sys', stats')) :
    stats' = stats.count rc ∧
      (rc = .mailboxFull ∧ sys' = sys ∨ mbSchedSend sys pid cmd = .ok (rc, sys')) := by
  rw [os2Enqueue_eq] at h
  obtain ⟨found, -, h⟩ := bind_eq_ok.mp h
  split at h
  · cases h
    exact ⟨rfl, .inl ⟨rfl, rfl⟩⟩
  · obtain ⟨⟨code, after⟩, hsend, h⟩ := bind_eq_ok.mp h
    cases h
    exact ⟨rfl, .inr hsend⟩

/-- A refused push changes nothing in the table. -/
theorem mbSchedSend_refused (h : mbSchedSend sys pid cmd = .ok (rc, sys')) (hrc : rc ≠ .ok) :
    sys'.sched = sys.sched := by
  rcases mbSchedSend_cases h with ⟨-, -, rfl⟩ | ⟨target, after, -, hdeliver, rfl⟩
  · rfl
  · obtain ⟨mb, state, hpush, rfl, rfl⟩ := deliver_eq hdeliver
    obtain rfl := mbMailboxPushRaw_refused hpush hrc
    rw [if_neg fun hand => hrc hand.1]
    exact Scheduler.setProc_proc sys.sched target

theorem mbSchedSend_returns (hl : Ledgers sys) (pid : Byte) (cmd : Command) :
    ∃ rc sys', mbSchedSend sys pid cmd = .ok (rc, sys') := by
  rcases mbSchedProc_cases sys.sched pid with ⟨hnone, -⟩ | ⟨i, -, -, hsome⟩
  · exact ⟨.badPid, sys, by rw [mbSchedSend, hnone]; rfl⟩
  · obtain ⟨q, hq⟩ := hl i
    obtain ⟨mb, hmb, -⟩ := Mailbox.push_refines hq.holds cmd
    rw [mbSchedSend, hsome]
    simp only [ok_bind, mbVmMailboxPushProc, hmb, pure_ok]
    exact ⟨_, _, rfl⟩

/-- The pid names a process that has no room left. -/
def FullAt (s : Scheduler) (pid : Byte) : Prop :=
  ∃ i : Slot, pid.toNat = i.val + 1 ∧ (s.proc i).state ≠ .free ∧
    (s.proc i).mailbox.queue.length = mailboxCapacity

theorem noRoom_queue (hl : Ledgers sys) (i : Slot) : noRoom sys.sched (some i) ↔
    (sys.sched.proc i).mailbox.queue.length = mailboxCapacity := by
  obtain ⟨q, hq⟩ := hl i
  have hbounded := q.bounded
  have hcount : (sys.sched.proc i).mailbox.count = q.queue.length := hq.holds.count_eq
  rw [noRoom, hcount, hq.holds.queue_eq]
  omega

theorem noRoom_iff (hl : Ledgers sys) {found : Option Slot}
    (hfound : mbSchedProc sys.sched pid = .ok found) :
    noRoom sys.sched found ↔ FullAt sys.sched pid := by
  rcases mbSchedProc_cases sys.sched pid with ⟨hnone, hfree⟩ | ⟨i, hpid, hlive, hsome⟩
  · cases hnone.symm.trans hfound
    exact ⟨False.elim, fun ⟨i, hi, hlive, _⟩ => hlive (hfree i hi)⟩
  · cases hsome.symm.trans hfound
    rw [noRoom_queue hl]
    constructor
    · exact fun hfull => ⟨i, hpid, hlive, hfull⟩
    · rintro ⟨j, hj, -, hfull⟩
      obtain rfl : i = j := Fin.ext (by omega)
      exact hfull

/-- The test for room never changes what a call does to the table, and changes its answer exactly
for an invalid command and a full mailbox. -/
theorem os2Enqueue_agrees {hal : Hal} (h : Runs hal sys) (pid : Byte) (cmd : Command)
    (stats : Os2MbStats) : ∃ rc rc' sys₁ sys₂,
      os2Enqueue sys pid cmd stats = .ok (rc, sys₁, stats.count rc) ∧
      mbSchedSend sys pid cmd = .ok (rc', sys₂) ∧ sys₁.sched = sys₂.sched ∧
      (rc = rc' ↔ ¬ (FullAt sys.sched pid ∧ mbValidateCommand cmd ≠ .ok)) := by
  have hl := (ledgers_invariant.runs h).2
  obtain ⟨rc', sys₂, hsend⟩ := mbSchedSend_returns hl pid cmd
  obtain ⟨target, htarget, hpushed⟩ := mbSchedSend_pushed hl hsend
  have hiff := noRoom_iff hl htarget
  rw [os2Enqueue_eq, htarget, ok_bind, hsend]
  by_cases hroom : noRoom sys.sched target
  · have hrefused : rc' ≠ .ok := by
      rintro rfl
      obtain ⟨i, rfl, hqueue, -⟩ := hpushed.accepted rfl
      obtain ⟨q, hq⟩ := (ledgers_invariant.runs (h.call (c := .send pid cmd)
        (by rw [runCall, hsend]; rfl))).2 i
      have hbounded := q.bounded
      rw [← hq.holds.queue_eq, hqueue, List.length_append, (noRoom_queue hl i).mp hroom] at hbounded
      exact absurd hbounded (Nat.not_succ_le_self _)
    have hfull : rc' = .mailboxFull ↔ mbValidateCommand cmd = .ok := by
      rw [hpushed.full]
      refine and_iff_left ?_
      cases target with
      | none => exact hroom.elim
      | some i => exact ⟨i, rfl, (noRoom_queue hl i).mp hroom⟩
    refine ⟨.mailboxFull, rc', sys, sys₂, if_pos hroom, rfl,
      (mbSchedSend_refused hsend hrefused).symm, ?_⟩
    rw [eq_comm, hfull, and_iff_right (hiff.mp hroom), not_not]
  · exact ⟨rc', rc', sys₂, sys₂, if_neg hroom, rfl, rfl,
      iff_of_true rfl fun hand => hroom (hiff.mpr hand.1)⟩

/-- With 32 duties queued, a duty above 1000 finds no room with the test, and is a bad argument
without it. -/
theorem os2Enqueue_agrees_fullActuator : ∃ sys sys₁ sys₂,
    runCalls idleHal System.init
      (.spawn [0x20, 0, 1, 2, 3, 4] :: List.replicate 32 (.send 1 ⟨2, 0, 500, 0, 0⟩)) = .ok sys ∧
    os2EnqueuePwmCmd sys 1 0 1001 0 ⟨0, 0, 0⟩ = .ok (.mailboxFull, sys₁, ⟨1, 0, 1⟩) ∧
    mbSchedSend sys 1 ⟨2, 0, 1001, 0, 0⟩ = .ok (.badArgument, sys₂) ∧ sys₁.sched = sys₂.sched ∧
    FullAt sys.sched 1 := by
  obtain ⟨sys, hrun, hanswers⟩ := exists_ok_of_map
    (runCalls idleHal System.init
      (.spawn [0x20, 0, 1, 2, 3, 4] :: List.replicate 32 (.send 1 ⟨2, 0, 500, 0, 0⟩)))
    (fun sys => ((os2EnqueuePwmCmd sys 1 0 1001 0 ⟨0, 0, 0⟩).map Prod.fst,
      (mbSchedSend sys 1 ⟨2, 0, 1001, 0, 0⟩).map Prod.fst))
    (.ok .mailboxFull, .ok .badArgument) (by decide +kernel)
  obtain ⟨hfirst, hsecond⟩ := Prod.mk.inj hanswers
  obtain ⟨rc, rc', sys₁, sys₂, henqueue, hsend, hsched, hrc⟩ :=
    os2Enqueue_agrees ⟨_, hrun⟩ 1 ⟨2, 0, 1001, 0, 0⟩ ⟨0, 0, 0⟩
  have henqueue' : os2EnqueuePwmCmd sys 1 0 1001 0 ⟨0, 0, 0⟩ =
      .ok (rc, sys₁, Os2MbStats.count ⟨0, 0, 0⟩ rc) := henqueue
  rw [henqueue'] at hfirst
  rw [hsend] at hsecond
  cases hfirst
  cases hsecond
  have hdiffer : FullAt sys.sched 1 ∧ mbValidateCommand ⟨2, 0, 1001, 0, 0⟩ ≠ .ok :=
    not_not.mp fun hnot => absurd (hrc.mpr hnot) (by decide)
  exact ⟨sys, sys₁, sys₂, hrun, henqueue', hsend, hsched, hdiffer.1⟩

end Call

/-! ### Runs -/

/-- A command offered, with the answer. -/
structure Offer where
  pid : Byte
  cmd : Command
  rc : Status

/-- The commands offered to `pid` and accepted, in order. -/
def accepted (pid : Byte) (offers : List Offer) : List Command :=
  (offers.filter fun o => o.pid = pid ∧ o.rc = .ok).map Offer.cmd

/-- Runs of native code that queues commands between its other calls: the state, the counters and
the commands offered so far. -/
inductive Produces (hal : Hal) : System → Os2MbStats → List Offer → Prop
  | start : Produces hal System.init ⟨0, 0, 0⟩ []
  | call {sys sys' : System} {stats : Os2MbStats} {offers : List Offer} {c : Call}
      (before : Produces hal sys stats offers) (made : runCall hal sys c = .ok sys') :
      Produces hal sys' stats offers
  | offer {sys sys' : System} {stats stats' : Os2MbStats} {offers : List Offer} {pid : Byte}
      {cmd : Command} {rc : Status} (before : Produces hal sys stats offers)
      (made : os2Enqueue sys pid cmd stats = .ok (rc, sys', stats')) :
      Produces hal sys' stats' (offers ++ [⟨pid, cmd, rc⟩])

/-- The counters stand for the commands offered. -/
structure Os2MbStats.Counts (stats : Os2MbStats) (offers : List Offer) : Prop where
  attempted : stats.attempted = .ofNat 32 offers.length
  pushed : stats.pushed = .ofNat 32 (offers.countP fun o => o.rc = .ok)
  droppedFull : stats.droppedFull = .ofNat 32 (offers.countP fun o => o.rc = .mailboxFull)

section Runs

variable {hal : Hal} {sys : System} {stats : Os2MbStats} {offers : List Offer}

theorem Os2MbStats.Counts.count (h : stats.Counts offers) (o : Offer) :
    (stats.count o.rc).Counts (offers ++ [o]) := by
  have hcount : ∀ rc, (if o.rc = rc then
      BitVec.ofNat 32 (offers.countP fun o => o.rc = rc) + 1
      else BitVec.ofNat 32 (offers.countP fun o => o.rc = rc)) =
        .ofNat 32 ((offers ++ [o]).countP fun o => o.rc = rc) := fun rc => by
    rw [List.countP_append]
    by_cases hrc : o.rc = rc
    · rw [if_pos hrc, List.countP_cons_of_pos (by simpa using hrc)]
      exact (BitVec.ofNat_add _ 1).symm
    · rw [if_neg hrc, List.countP_cons_of_neg (by simpa using hrc)]
      rfl
  refine ⟨?_, ?_, ?_⟩
  · rw [Os2MbStats.count, h.attempted, List.length_append]
    exact (BitVec.ofNat_add _ 1).symm
  · rw [Os2MbStats.count, h.pushed]
    exact hcount .ok
  · rw [Os2MbStats.count, h.droppedFull]
    exact hcount .mailboxFull

theorem accepted_append (pid : Byte) (offers : List Offer) (o : Offer) :
    accepted pid (offers ++ [o]) =
      accepted pid offers ++ if o.pid = pid ∧ o.rc = .ok then [o.cmd] else [] := by
  rw [accepted, List.filter_append, List.map_append]
  by_cases h : o.pid = pid ∧ o.rc = .ok <;> simp [accepted, h]

/-- Queueing makes no state that other calls do not make. -/
theorem Produces.runs (h : Produces hal sys stats offers) : Runs hal sys := by
  induction h with
  | start => exact ⟨[], rfl⟩
  | call _ made ih => exact ih.call made
  | @offer sys sys' stats stats' offers pid cmd rc _ made ih =>
      rcases (os2Enqueue_cases made).2 with ⟨-, rfl⟩ | hsend
      · exact ih
      · exact ih.call (c := .send pid cmd) (by rw [runCall, hsend]; rfl)

theorem Produces.counts (h : Produces hal sys stats offers) : stats.Counts offers := by
  induction h with
  | start => exact ⟨rfl, rfl, rfl⟩
  | call _ _ ih => exact ih
  | @offer sys sys' stats stats' offers pid cmd rc _ made ih =>
      rw [(os2Enqueue_cases made).1]
      exact ih.count ⟨pid, cmd, rc⟩

theorem delivered_mono {pid : Byte} {t u : Trace} (h : t <+: u) :
    delivered pid t <+: delivered pid u := by
  obtain ⟨more, rfl⟩ := h
  rw [delivered_append]
  exact List.prefix_append _ _

/-- What was accepted was delivered, in order. -/
theorem Produces.delivered (h : Produces hal sys stats offers) (i : Slot) :
    (accepted i.pid offers).Sublist (MiniBeam.delivered i.pid sys.trace) := by
  induction h with
  | start => exact List.Sublist.refl _
  | call _ made ih => exact ih.trans (delivered_mono (runCall_grows made)).sublist
  | @offer sys sys' stats stats' offers pid cmd rc before made ih =>
      rw [accepted_append]
      rcases (os2Enqueue_cases made).2 with ⟨rfl, rfl⟩ | hsend
      · simpa using ih
      · have hcall : runCall hal sys (.send pid cmd) = .ok sys' := by
          rw [runCall, hsend]
          rfl
        have hgrows := runCall_grows hcall
        by_cases hok : rc = .ok
        · subst hok
          obtain ⟨target, htarget, htrace⟩ :=
            mbSchedSend_event (table_invariant.runs before.runs) hsend
          obtain rfl : pid = target.pid := by
            apply BitVec.eq_of_toNat_eq
            rw [(mbSchedProc_some htarget).1, Slot.pid_toNat]
          rw [htrace, delivered_append, delivered_push]
          exact ih.append_right _
        · rw [if_neg fun hand => hok hand.2, List.append_nil]
          exact ih.trans (delivered_mono hgrows).sublist

/-- Whatever else happens between its calls, native code that queues commands makes no new states,
its counters stand for what it was answered, and every command it was told is queued was
received by its process or is still in the mailbox, in the order of the calls. -/
theorem enqueue_accounts (h : Produces hal sys stats offers) :
    Runs hal sys ∧ stats.Counts offers ∧ ∀ i : Slot, (accepted i.pid offers).Sublist
      (received i.pid sys.trace ++ (sys.sched.proc i).mailbox.queue) := by
  refine ⟨h.runs, h.counts, fun i => ?_⟩
  obtain ⟨q, hq⟩ := (ledgers_invariant.runs h.runs).2 i
  rw [hq.holds.queue_eq, ← hq.balance]
  exact h.delivered i

/-- Two commands offered to an actuator, the second out of range. -/
theorem enqueue_accounts_actuator : ∃ sys stats, Runs idleHal sys ∧
    Os2MbStats.Counts stats [⟨1, ⟨2, 0, 500, 0, 7⟩, .ok⟩, ⟨1, ⟨2, 0, 1001, 0, 7⟩, .badArgument⟩] ∧
    [⟨2, 0, 500, 0, 7⟩] = received (Slot.pid 0) sys.trace ++ (sys.sched.proc 0).mailbox.queue := by
  have hspawned : Produces idleHal ⟨(mbSchedSpawn mbSchedInit [0x20, 0, 1, 2, 3, 4]).2, []⟩
      ⟨0, 0, 0⟩ [] := .call (c := .spawn [0x20, 0, 1, 2, 3, 4]) .start rfl
  obtain ⟨⟨rc, sys₁, stats₁⟩, hfirst, hrc⟩ := exists_ok_of_map
    (os2EnqueuePwmCmd ⟨(mbSchedSpawn mbSchedInit [0x20, 0, 1, 2, 3, 4]).2, []⟩ 1 0 500 7 ⟨0, 0, 0⟩)
    (fun r => (r.1, (os2EnqueuePwmCmd r.2.1 1 0 1001 7 r.2.2).map fun r => (r.1,
      (received 1 r.2.1.trace ++ (r.2.1.sched.proc 0).mailbox.queue).length)))
    (.ok, .ok (.badArgument, 1)) (by decide +kernel)
  obtain ⟨rfl, hsecond⟩ := Prod.mk.inj hrc
  obtain ⟨⟨rc', sys₂, stats₂⟩, hsecond, hrc'⟩ := exists_ok_of_map _ _ _ hsecond
  obtain ⟨rfl, hlength⟩ := Prod.mk.inj hrc'
  obtain ⟨hruns, hcounts, hall⟩ := enqueue_accounts ((hspawned.offer hfirst).offer hsecond)
  exact ⟨sys₂, stats₂, hruns, hcounts, (hall 0).eq_of_length hlength.symm⟩

end Runs

end MiniBeam
