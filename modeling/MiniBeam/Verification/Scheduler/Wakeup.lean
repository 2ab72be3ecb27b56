import MiniBeam.Verification.Commands
import MiniBeam.Verification.Scheduler.Fairness
import MiniBeam.Verification.Scheduler.States

/-! How long a command waits in the mailbox of a process that was blocked when it came. -/

namespace MiniBeam

/-- A process about to receive `cmd`. -/
structure Process.Woken (p : Process) (cmd : Command) : Prop where
  recv : p.AtRecv
  ready : p.state = .ready
  front : ∃ rest, p.mailbox.queue = cmd :: rest

theorem Process.Woken.frame {i : Slot} {p q : Process} {cmd : Command} {t : Trace}
    (h : p.Woken cmd) (hf : Frame i p q t) : q.Woken cmd := by
  have hs := hf.same
  obtain ⟨rest, hrest⟩ := h.front
  refine ⟨?_, ?_, rest ++ delivered i.pid t, ?_⟩
  · rw [hs]
    exact h.recv
  · rcases hf.state with he | ⟨hw, -, -⟩
    · exact he.trans h.ready
    · rw [h.ready] at hw
      cases hw
  · rw [hf.queue, hrest, List.cons_append]

/-- A process that waits has an empty queue. -/
theorem Process.Blocked.queue {p : Process} {q : Inbox} (h : p.Blocked) (hq : p.mailbox.Holds q) :
    p.mailbox.queue = [] := by
  have hpop := Mailbox.pop_refines hq
  split at hpop
  · rename_i hnone
    rw [hq.queue_eq]
    exact (Inbox.pop_none_iff q).mp hnone
  · obtain ⟨mb, hmb, -⟩ := hpop
    rw [h.empty] at hmb
    cases hmb

section Slice

variable {hal : Hal} {i : Slot} {cmd : Command} {sys sys₁ sys' : System} {rc : Status}

theorem Slice.grows {steps : List System} (h : Slice hal i sys steps rc sys')
    (hready : (sys.sched.proc i).state = .ready) : sys.trace <+: sys'.trace := by
  have hstep : ∀ {s s₁ : System} {rc : Status}, (s.sched.proc i).state = .ready →
      mbProcStep hal (s.machine i) = .ok (rc, s₁.machine i) → s.trace <+: s₁.trace := by
    intro s s₁ rc hs hrun
    obtain ⟨s₂, hm, hmoves⟩ := mbProcStep_moves hs hrun
    rw [System.machine_inj.mp hm]
    exact hmoves.grows
  induction h with
  | spent => exact List.prefix_rfl
  | last _ step => exact hstep hready step
  | more _ step ready _ ih => exact (hstep hready step).trans (ih (ready_countReduction ready))

theorem Process.Woken.wake {p : Process} (h : p.Woken cmd) (now : BitVec 32) :
    MiniBeam.wake now p = p := by
  rw [MiniBeam.wake, if_neg (by simp [h.ready])]

/-- The `RECV_CMD` of a woken process takes the command. -/
theorem Process.Woken.step (hinv : Table sys ∧ Ledgers sys) (hw : (sys.sched.proc i).Woken cmd)
    (hstep : mbProcStep hal (sys.machine i) = .ok (rc, sys'.machine i)) :
    sys'.trace = sys.trace ++ [.pop i.pid cmd] := by
  obtain ⟨rType, rA, rB, rC, rD, next, hd⟩ := hw.recv
  obtain ⟨rest, hrest⟩ := hw.front
  obtain ⟨q, hq⟩ := hinv.2 i
  rw [hq.holds.queue_eq] at hrest
  obtain ⟨-, mb, hpop⟩ := hq.holds.pop_front hrest
  have hhalted : (sys.sched.proc i).halted = false := by
    rw [Bool.eq_false_iff, Ne, (hinv.1.entry i).halted, hw.ready]
    decide
  have hpid : (sys.sched.proc i).pid = i.pid := (hinv.1.entry i).pid (by simp [hw.ready])
  have hrecv : mbProcStep hal (sys.machine i) = _ := mbProcStep_recv hal hhalted hd hpop
  rw [hstep] at hrecv
  have htrace := congrArg (fun r => r.2.trace) (Except.ok.inj hrecv)
  rw [← hpid]
  exact htrace

/-- The first instruction of a slice of a woken process takes the command. -/
theorem Process.Woken.takes (hinv : Table sys ∧ Ledgers sys) (hw : (sys.sched.proc i).Woken cmd)
    (hpick : mbSchedPick hal sys = .ok (some i, sys₁))
    (htick : mbSchedTick hal sys = .ok (rc, sys')) :
    received i.pid sys.trace ++ [cmd] <+: received i.pid sys'.trace := by
  have hproc : sys₁.sched.proc i = sys.sched.proc i :=
    (mbSchedPick_proc hpick i).trans (hw.wake _)
  have hready₁ := mbSchedPick_ready hpick
  have hinv₁ :=
    ledgers_invariant.moves (startSlice_moves hready₁) (ledgers_invariant.pick hpick hinv)
  have hslice : ∃ steps, Slice hal i (sys₁.startSlice i) steps rc sys' := by
    rcases mbSchedTick_slice htick with ⟨-, hnone, -⟩ | ⟨-, self, sys₂, steps, hpick', -, hslice⟩
    · rw [hpick] at hnone
      cases hnone
    · rw [hpick] at hpick'
      cases hpick'
      exact ⟨steps, hslice⟩
  obtain ⟨steps, hslice⟩ := hslice
  have hstart : (sys₁.startSlice i).sched.proc i =
      { sys.sched.proc i with reductions := 0 } := by
    rw [System.startSlice, Scheduler.proc_setProc_self, hproc]
  have hw₁ : ((sys₁.startSlice i).sched.proc i).Woken cmd := by
    rw [hstart]
    exact ⟨hw.recv, hw.ready, hw.front⟩
  have hfirst : (sys₁.startSlice i).trace ++ [.pop i.pid cmd] <+: sys'.trace := by
    cases hslice with
    | spent out =>
        rcases out with hhalted | hspent
        · have hstate := ((hinv₁.1.entry i).halted).mp hhalted
          rw [hw₁.ready] at hstate
          cases hstate
        · rw [hstart] at hspent
          exact absurd hspent (Nat.not_succ_le_zero 63)
    | last _ step => rw [hw₁.step hinv₁ step]
    | more _ step ready rest =>
        rw [← hw₁.step hinv₁ step]
        exact rest.grows (ready_countReduction ready)
  obtain ⟨more, hmore⟩ := hfirst
  have htrace : (sys₁.startSlice i).trace = sys₁.trace := rfl
  rw [← hmore, htrace, mbSchedPick_trace hpick]
  refine ⟨received i.pid more, ?_⟩
  rw [received_append, received_append, received_append, received_hal, received_pop, if_pos rfl,
    List.append_nil]

end Slice

section Calls

variable {hal : Hal} {i : Slot} {cmd : Command} {sys sys' : System}

/-- A frame receives nothing. -/
theorem Frame.received {events : Trace} (hl : Ledgers sys) (hl' : Ledgers sys')
    (htrace : sys'.trace = sys.trace ++ events)
    (hf : Frame i (sys.sched.proc i) (sys'.sched.proc i) events) :
    MiniBeam.received i.pid sys'.trace = MiniBeam.received i.pid sys.trace := by
  obtain ⟨q, hq⟩ := hl i
  obtain ⟨q', hq'⟩ := hl' i
  have hqueue := hf.queue
  rw [hq.holds.queue_eq, hq'.holds.queue_eq] at hqueue
  have hbalance := hq'.balance
  rw [htrace, delivered_append, hq.balance, List.append_assoc, ← hqueue, ← htrace] at hbalance
  exact (List.append_cancel_right hbalance).symm

theorem received_mono {pid : Byte} {t u : Trace} (h : t <+: u) :
    received pid t <+: received pid u := by
  obtain ⟨more, rfl⟩ := h
  rw [received_append]
  exact List.prefix_append _ _

/-- A call keeps a process woken with its command, or the command is received. -/
theorem Process.Woken.call {c : Call} (hinv : Table sys ∧ Ledgers sys)
    (hw : (sys.sched.proc i).Woken cmd) (h : runCall hal sys c = .ok sys') :
    ((sys'.sched.proc i).Woken cmd ∧ received i.pid sys'.trace = received i.pid sys.trace) ∨
      received i.pid sys.trace ++ [cmd] <+: received i.pid sys'.trace := by
  by_cases hpicked : c = .tick ∧ ∃ sys₁, mbSchedPick hal sys = .ok (some i, sys₁)
  · obtain ⟨rfl, sys₁, hpick⟩ := hpicked
    obtain ⟨⟨rc, sys₂⟩, htick, h⟩ := bind_eq_ok.mp h
    cases h
    exact .inr (hw.takes hinv hpick htick)
  · obtain ⟨events, htrace, hframe⟩ := runCall_frame hinv (by simp [hw.ready])
      (fun _ => hw.wake _) (fun hc sys₁ hpick => hpicked ⟨hc, sys₁, hpick⟩) h
    exact .inl ⟨hw.frame hframe,
      hframe.received hinv.2 (ledgers_invariant.call h hinv).2 htrace⟩

theorem Process.Woken.calls {cs : List Call} (hinv : Table sys ∧ Ledgers sys)
    (hw : (sys.sched.proc i).Woken cmd) (h : runCalls hal sys cs = .ok sys') :
    ((sys'.sched.proc i).Woken cmd ∧ received i.pid sys'.trace = received i.pid sys.trace) ∨
      received i.pid sys.trace ++ [cmd] <+: received i.pid sys'.trace := by
  induction cs generalizing sys with
  | nil =>
      cases h
      exact .inl ⟨hw, rfl⟩
  | cons c cs ih =>
      obtain ⟨sys₁, hcall, hrest⟩ := bind_eq_ok.mp h
      rcases hw.call hinv hcall with ⟨hw₁, hsame⟩ | htaken
      · rw [← hsame]
        exact ih (ledgers_invariant.call hcall hinv) hw₁ hrest
      · exact .inr (htaken.trans (received_mono (runCalls_grows hrest)))

/-- A woken process takes its command within any eight ticks. -/
theorem Process.Woken.received {cs : List Call} (hr : Runs hal sys)
    (hw : (sys.sched.proc i).Woken cmd) (h : runCalls hal sys cs = .ok sys')
    (hticks : maxProcesses ≤ cs.count .tick) :
    MiniBeam.received i.pid sys.trace ++ [cmd] <+: MiniBeam.received i.pid sys'.trace := by
  have hlt : sys.sched.distance i < 8 := Int.emod_lt_of_pos _ (by decide)
  have hmax : maxProcesses = 8 := rfl
  obtain ⟨before, after, sys₁, sys₂, rfl, -, hbefore, hpick⟩ :=
    ready_dispatched hr hw.ready h (by omega)
  rw [runCalls_append, hbefore, ok_bind] at h
  obtain ⟨sys₃, htick, hafter⟩ := bind_eq_ok.mp h
  have hgrows : MiniBeam.received i.pid sys₃.trace <+: MiniBeam.received i.pid sys'.trace :=
    received_mono (runCalls_grows hafter)
  obtain hinv := ledgers_invariant.runs hr
  rcases hw.calls hinv hbefore with ⟨hw₁, hsame⟩ | htaken
  · obtain ⟨⟨rc, sys₄⟩, hrun, hend⟩ := bind_eq_ok.mp htick
    cases hend
    rw [← hsame]
    exact (hw₁.takes (ledgers_invariant.calls hbefore hinv) hpick hrun).trans hgrows
  · exact (htaken.trans (received_mono (runCall_grows htick))).trans hgrows

end Calls

/-- A command that comes for a process while it is blocked, from outside or by a `SEND`, is
received within the next eight ticks, whatever else is spawned, sent and run. -/
theorem blocked_receives {hal : Hal} {sys sys₁ sys₂ : System} {i : Slot} {c : Call} {cs : List Call}
    (hr : Runs hal sys) (hwait : (sys.sched.proc i).state = .waiting)
    (hcall : runCall hal sys c = .ok sys₁)
    (hgain : delivered i.pid sys₁.trace ≠ delivered i.pid sys.trace)
    (hrun : runCalls hal sys₁ cs = .ok sys₂) (hticks : maxProcesses ≤ cs.count .tick) :
    ∃ cmd rest, delivered i.pid sys₁.trace = delivered i.pid sys.trace ++ cmd :: rest ∧
      received i.pid sys.trace ++ [cmd] <+: received i.pid sys₂.trace := by
  have hinv := ledgers_invariant.runs hr
  have hinv₁ := ledgers_invariant.call hcall hinv
  have hblocked := (hinv.1.entry i).blocked hwait
  have hparked : Parked (sys.sched.proc i) (sys.sched.proc i) := ⟨rfl, rfl, .inl hwait⟩
  have hpicked : ∀ sys', mbSchedPick hal sys ≠ .ok (some i, sys') := by
    intro sys' hpick
    have hready := mbSchedPick_ready hpick
    rw [hparked.picked hpick, hwait] at hready
    cases hready
  have hwake : wake (hal sys.trace .monotonicMs).ms (sys.sched.proc i) = sys.sched.proc i := by
    rw [wake, if_neg (by simp [hwait])]
  obtain ⟨events, htrace, hframe⟩ := runCall_frame hinv (by simp [hwait]) (fun _ => hwake)
    (fun _ => hpicked) hcall
  have hsame := hframe.received hinv.2 hinv₁.2 htrace
  obtain ⟨q, hq⟩ := hinv.2 i
  obtain ⟨q₁, hq₁⟩ := hinv₁.2 i
  have hqueue := hframe.queue
  rw [hblocked.queue hq.holds, List.nil_append] at hqueue
  rw [htrace, delivered_append] at hgain ⊢
  cases hnew : delivered i.pid events with
  | nil => exact absurd (by rw [hnew, List.append_nil]) hgain
  | cons cmd rest =>
      rw [hnew] at hqueue
      have hparked₁ := hparked.frame hframe
      have hready : (sys₁.sched.proc i).state = .ready := by
        rcases hparked₁.state with hstill | ⟨hready, -⟩
        · rw [((hinv₁.1.entry i).blocked hstill).queue hq₁.holds] at hqueue
          cases hqueue
        · exact hready
      have hw : (sys₁.sched.proc i).Woken cmd :=
        ⟨hparked₁.atRecv hblocked.recv, hready, rest, hqueue⟩
      refine ⟨cmd, rest, rfl, ?_⟩
      rw [← hsame]
      exact hw.received (hr.call hcall) hrun hticks

/-- A receiver that blocked in the first tick. -/
theorem blocked_receives_receiver : ∃ sys sys₁ sys₂ : System,
    runCall idleHal sys (.send 1 ⟨1, 2, 1, 0, 0⟩) = .ok sys₁ ∧
    runCalls idleHal sys₁ (List.replicate 8 .tick) = .ok sys₂ ∧
    (sys.sched.proc 0).state = .waiting ∧ ∃ cmd rest,
      delivered (Slot.pid 0) sys₁.trace = delivered (Slot.pid 0) sys.trace ++ cmd :: rest ∧
      received (Slot.pid 0) sys.trace ++ [cmd] <+: received (Slot.pid 0) sys₂.trace := by
  obtain ⟨sys, hrun, hs⟩ := exists_ok_of_map
    (runCalls idleHal System.init [.spawn receiver, .tick])
    (fun sys => ((sys.sched.proc 0).state, delivered (Slot.pid 0) sys.trace,
      (runCall idleHal sys (.send 1 ⟨1, 2, 1, 0, 0⟩)).map fun sys =>
        (delivered (Slot.pid 0) sys.trace, (runCalls idleHal sys (List.replicate 8 .tick)).map
          fun _ => ())))
    (.waiting, [], .ok ([⟨1, 2, 1, 0, 0⟩], .ok ())) (by decide +kernel)
  simp only [Prod.mk.injEq] at hs
  obtain ⟨hwait, hnone, hsend⟩ := hs
  obtain ⟨sys₁, hcall, hs₁⟩ := exists_ok_of_map _ _ _ hsend
  obtain ⟨hone, hticks⟩ := Prod.mk.inj hs₁
  obtain ⟨sys₂, hafter, -⟩ := exists_ok_of_map _ _ _ hticks
  exact ⟨sys, sys₁, sys₂, hcall, hafter, hwait, blocked_receives ⟨_, hrun⟩ hwait hcall
    (by rw [hone, hnone]; decide) hafter (by decide)⟩

end MiniBeam
