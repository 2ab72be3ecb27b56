import MiniBeam.Verification.Scheduler.History

/-! Process isolation: a slice reaches the other entries of the table through their
mailboxes only. -/

namespace MiniBeam

/-- What a stretch of a run does to a process that is not running in it. -/
structure Frame (i : Slot) (q q' : Process) (events : Trace) : Prop where
  same : q' = { q with mailbox := q'.mailbox, state := q'.state }
  queue : q'.mailbox.queue = q.mailbox.queue ++ delivered i.pid events
  valid : ∀ cmd ∈ delivered i.pid events, mbValidateCommand cmd = .ok
  state : q'.state = q.state ∨
    (q.state = .waiting ∧ q'.state = .ready ∧ delivered i.pid events ≠ [])
  free : q.state = .free → q' = q

theorem Frame.quiet {i : Slot} (q : Process) {events : Trace} (hd : delivered i.pid events = []) :
    Frame i q q events :=
  ⟨rfl, by simp [hd], by simp [hd], .inl rfl, fun _ => rfl⟩

theorem Frame.trans {i : Slot} {q q' q'' : Process} {t u : Trace} (h : Frame i q q' t)
    (h' : Frame i q' q'' u) : Frame i q q'' (t ++ u) := by
  refine ⟨?_, ?_, ?_, ?_, ?_⟩
  · rw [h'.same, h.same]
  · rw [h'.queue, h.queue, delivered_append, List.append_assoc]
  · intro cmd hcmd
    rw [delivered_append] at hcmd
    rcases List.mem_append.mp hcmd with hc | hc
    · exact h.valid cmd hc
    · exact h'.valid cmd hc
  · rw [delivered_append]
    rcases h.state with hs | ⟨hw, hr, hne⟩ <;> rcases h'.state with hs' | ⟨hw', hr', hne'⟩
    · exact .inl (hs'.trans hs)
    · exact .inr ⟨hs ▸ hw', hr', by simp [hne']⟩
    · exact .inr ⟨hw, hs'.trans hr, by simp [hne]⟩
    · exact .inr ⟨hw, hr', by simp [hne]⟩
  · intro hf
    have hq := h.free hf
    rw [h'.free (by rw [hq, hf]), hq]

section Moves

variable {self i : Slot}

/-- A move of `self` frames every other entry. -/
theorem Move.frame {sys sys' : System} (hi : Table sys ∧ Ledgers sys) (hne : i ≠ self)
    (hm : Move self sys sys') :
    ∃ events, sys'.trace = sys.trace ++ events ∧
      Frame i (sys.sched.proc i) (sys'.sched.proc i) events := by
  rcases hm with ⟨ready, change⟩ | ⟨hocc, hd⟩
  · rename_i s t p' events
    refine ⟨events, rfl, ?_⟩
    show Frame i (s.proc i) ((s.setProc self p').proc i) events
    rw [Scheduler.proc_setProc_ne s p' hne]
    exact Frame.quiet _ (change.intake.delivered _)
  · rename_i s s' t target cmd rc
    have hpid : (s.proc target).pid = target.pid := (hi.1.entry target).pid hocc
    obtain ⟨mb, state, hmb, hstate, rfl⟩ := deliver_eq hd
    refine ⟨_, rfl, ?_⟩
    dsimp only
    rw [Scheduler.proc_setProc, hpid]
    split
    · rename_i hit
      subst hit
      obtain ⟨q, hq⟩ := hi.2 i
      obtain ⟨hrc, hq'⟩ := hq.push hmb
      have hmbq : mb.queue = (s.proc i).mailbox.queue ++
          delivered i.pid [.push i.pid cmd rc] := by
        rw [hq'.holds.queue_eq, hq.holds.queue_eq, Inbox.push_queue, delivered_push, ← hrc]
        split <;> simp_all
      refine ⟨by rw [hpid], hmbq, ?_, ?_, fun hf => absurd hf hocc⟩
      · intro c hc
        rw [delivered_push] at hc
        split at hc
        · rename_i hok
          rw [List.mem_singleton.mp hc]
          exact Inbox.push_ok_valid (hrc ▸ hok.2)
        · simp at hc
      · dsimp only
        rw [hstate, delivered_push]
        split
        · rename_i hcase
          exact .inr ⟨hcase.2, rfl, by simp [hcase.1]⟩
        · exact .inl rfl
    · rename_i hit
      have hne' : target.pid ≠ i.pid := fun he => hit (Slot.pid_inj he).symm
      exact Frame.quiet _ (by simp [hne'])

theorem Moves.frame {sys sys' : System} (hi : Table sys ∧ Ledgers sys) (hne : i ≠ self)
    (hm : Moves self sys sys') :
    ∃ events, sys'.trace = sys.trace ++ events ∧
      Frame i (sys.sched.proc i) (sys'.sched.proc i) events := by
  induction hm with
  | refl => exact ⟨[], by simp, Frame.quiet _ rfl⟩
  | @tail sys₁ sys₂ hrest hstep ih =>
      obtain ⟨t, ht, hf⟩ := ih
      obtain ⟨u, hu, hf'⟩ := Move.frame (ledgers_invariant.moves hrest hi) hne hstep
      exact ⟨t ++ u, by rw [hu, ht, List.append_assoc], hf.trans hf'⟩

end Moves

/-- The choice of a process touches an entry only to wake it. -/
theorem mbSchedPick_proc {hal : Hal} {sys sys₁ : System} {found : Option Slot}
    (h : mbSchedPick hal sys = .ok (found, sys₁)) (i : Slot) :
    sys₁.sched.proc i = wake (hal sys.trace .monotonicMs).ms (sys.sched.proc i) := by
  obtain ⟨found', current, hpick, -, -⟩ := mbSchedPick_ok hal sys
  simp only [h, Except.ok.injEq, Prod.mk.injEq] at hpick
  rw [hpick.2]
  exact proc_wakeSleepers hal sys i

theorem mbSchedPick_trace {hal : Hal} {sys sys₁ : System} {found : Option Slot}
    (h : mbSchedPick hal sys = .ok (found, sys₁)) :
    sys₁.trace = sys.trace ++ [.hal 0 .monotonicMs (hal sys.trace .monotonicMs)] := by
  obtain ⟨found', current, hpick, -, -⟩ := mbSchedPick_ok hal sys
  simp only [h, Except.ok.injEq, Prod.mk.injEq] at hpick
  rw [hpick.2]
  rfl

/-- A call that neither wakes nor dispatches a process frames it. -/
theorem runCall_frame {hal : Hal} {i : Slot} {sys sys' : System} {c : Call}
    (hinv : Table sys ∧ Ledgers sys) (hocc : (sys.sched.proc i).state ≠ .free)
    (hwake : c = .tick →
      wake (hal sys.trace .monotonicMs).ms (sys.sched.proc i) = sys.sched.proc i)
    (hpicked : c = .tick → ∀ sys₁, mbSchedPick hal sys ≠ .ok (some i, sys₁))
    (h : runCall hal sys c = .ok sys') :
    ∃ events, sys'.trace = sys.trace ++ events ∧
      Frame i (sys.sched.proc i) (sys'.sched.proc i) events := by
  cases c with
  | spawn program =>
      cases h
      refine ⟨[], (List.append_nil _).symm, ?_⟩
      rcases mbSchedSpawn_cases sys.sched program with hs | ⟨k, hfree, hs⟩
      · rw [hs]
        exact Frame.quiet _ rfl
      · have hne : i ≠ k := fun he => hocc (he ▸ hfree)
        have hproc : ((mbSchedSpawn sys.sched program).2).proc i = sys.sched.proc i := by
          rw [hs]
          exact Scheduler.proc_setProc_ne _ _ hne
        show Frame i _ (((mbSchedSpawn sys.sched program).2).proc i) []
        rw [hproc]
        exact Frame.quiet _ rfl
  | send dst cmd =>
      obtain ⟨⟨rc, sys₁⟩, hsend, h⟩ := bind_eq_ok.mp h
      cases h
      rcases mbSchedSend_push hsend with rfl | hpush
      · exact ⟨[], (List.append_nil _).symm, Frame.quiet _ rfl⟩
      · -- no slot but `i` matters here: the push is a move of any other slice
        obtain ⟨j, hj⟩ : ∃ j : Slot, j ≠ i := exists_ne i
        exact Move.frame hinv hj.symm (.inr hpush : Move j sys sys₁)
  | tick =>
      obtain ⟨⟨rc, sys₁⟩, htick, h⟩ := bind_eq_ok.mp h
      cases h
      have hclock : Frame i (sys.sched.proc i) (sys.sched.proc i)
          [.hal 0 .monotonicMs (hal sys.trace .monotonicMs)] := Frame.quiet _ rfl
      rcases mbSchedTick_cases htick with ⟨hpick, -⟩ | ⟨self, sys₂, hpick, -⟩
      · refine ⟨_, mbSchedPick_trace hpick, ?_⟩
        rw [mbSchedPick_proc hpick i, hwake rfl]
        exact hclock
      · have hne : i ≠ self := fun he => hpicked rfl sys₂ (he ▸ hpick)
        obtain ⟨events, htrace, hframe⟩ := Moves.frame (ledgers_invariant.pick hpick hinv) hne
          (mbSchedTick_moves hpick htick)
        rw [mbSchedPick_proc hpick i, hwake rfl] at hframe
        rw [mbSchedPick_trace hpick, List.append_assoc] at htrace
        exact ⟨_, htrace, hclock.trans hframe⟩

/-- One tick that dispatches `p`, whatever status it returns, and any other entry `q`. -/
theorem mbSchedTick_isolates {hal : Hal} {sys sys₁ sys' : System} {rc : Status} {p : Slot}
    (hr : Runs hal sys) (hpick : mbSchedPick hal sys = .ok (some p, sys₁))
    (h : mbSchedTick hal sys = .ok (rc, sys')) :
    ∃ events, sys'.trace = sys.trace ++ events ∧ ∀ q, q ≠ p →
      let old := sys.sched.proc q
      let new := sys'.sched.proc q
      new = { old with mailbox := new.mailbox, state := new.state } ∧
      new.mailbox.queue = old.mailbox.queue ++ delivered q.pid events ∧
      (∀ cmd ∈ delivered q.pid events, mbValidateCommand cmd = .ok) ∧
      (new.state = old.state ∨
        (old.state = .waiting ∧ new.state = .ready ∧ delivered q.pid events ≠ []) ∨
        (old.state = .sleeping ∧ new.state = .ready ∧
          old.sleepUntilMs ≤ (hal sys.trace .monotonicMs).ms)) ∧
      (old.state = .free → new = old) := by
  have hi := ledgers_invariant.pick hpick (ledgers_invariant.runs hr)
  have hmoves := mbSchedTick_moves hpick h
  have htrace := mbSchedPick_trace hpick
  have hframe := fun q (hq : q ≠ p) => Moves.frame hi hq hmoves
  obtain ⟨events, hev⟩ : ∃ events, sys'.trace = sys₁.trace ++ events := by
    obtain ⟨q, hq⟩ : ∃ q : Slot, q ≠ p := exists_ne p
    obtain ⟨events, hev, -⟩ := hframe q hq
    exact ⟨events, hev⟩
  refine ⟨.hal 0 .monotonicMs (hal sys.trace .monotonicMs) :: events, ?_, fun q hq => ?_⟩
  · rw [hev, htrace, List.append_assoc, List.singleton_append]
  obtain ⟨events', hev', hf⟩ := hframe q hq
  obtain rfl : events' = events := List.append_cancel_left (hev'.symm.trans hev)
  have hdel : delivered q.pid (.hal 0 .monotonicMs (hal sys.trace .monotonicMs) :: events') =
      delivered q.pid events' := rfl
  have hproc := mbSchedPick_proc hpick q
  dsimp only
  rw [hdel]
  rcases wake_cases (hal sys.trace .monotonicMs).ms (sys.sched.proc q) with hw | ⟨hs, hw⟩
  · rw [hw] at hproc
    rw [hproc] at hf
    exact ⟨hf.same, hf.queue, hf.valid, hf.state.imp_right .inl, hf.free⟩
  · have hdue : (sys.sched.proc q).sleepUntilMs ≤ (hal sys.trace .monotonicMs).ms := by
      by_contra hlate
      have : wake (hal sys.trace .monotonicMs).ms (sys.sched.proc q) = sys.sched.proc q := by
        simp [wake, hlate]
      rw [this] at hw
      have := congrArg Process.state hw
      simp [hs] at this
    rw [hw] at hproc
    rw [hproc] at hf
    refine ⟨hf.same, hf.queue, hf.valid, ?_, fun hfree => ?_⟩
    · rcases hf.state with hst | ⟨hwait, -, -⟩
      · exact .inr (.inr ⟨hs, hst, hdue⟩)
      · simp at hwait
    · simp [hs] at hfree

/-- One `RECV_CMD`. -/
def receiver : List Byte := [0x20, 0, 1, 2, 3, 4]

/-- A `SEND` of `GPIO_WRITE` to pid 1, and then the end of the program. -/
def sender : List Byte :=
  [0x01, 3, 1, 0, 0, 0, 0x01, 0, 1, 0, 0, 0, 0x21, 3, 0, 1, 1, 1, 1]

theorem mbSchedTick_isolates_sender :
    ∃ sys sys', runCalls idleHal System.init [.spawn receiver, .spawn sender, .tick] = .ok sys ∧
      mbSchedTick idleHal sys = .ok (.eof, sys') ∧
      (sys'.sched.proc 0).mailbox.queue = (sys.sched.proc 0).mailbox.queue ++ [⟨1, 0, 0, 0, 0⟩] ∧
      (sys'.sched.proc 0).pc = (sys.sched.proc 0).pc := by
  have hrun : (do
      let sys ← runCalls idleHal System.init [.spawn receiver, .spawn sender, .tick]
      let picked ← mbSchedPick idleHal sys
      let ticked ← mbSchedTick idleHal sys
      return (picked.1, ticked.1,
        delivered (Slot.pid 0) (ticked.2.trace.drop sys.trace.length))) =
      Except.ok (some (1 : Slot), Status.eof, [⟨1, 0, 0, 0, 0⟩]) := by decide +kernel
  obtain ⟨sys, hsys, hrun⟩ := bind_eq_ok.mp hrun
  obtain ⟨⟨found, sys₁⟩, hpick, hrun⟩ := bind_eq_ok.mp hrun
  obtain ⟨⟨rc, sys'⟩, htick, hrun⟩ := bind_eq_ok.mp hrun
  simp only [pure_ok, Except.ok.injEq, Prod.mk.injEq] at hrun
  obtain ⟨rfl, rfl, hdel⟩ := hrun
  obtain ⟨events, htrace, h⟩ := mbSchedTick_isolates ⟨_, hsys⟩ hpick htick
  obtain ⟨hsame, hqueue, -⟩ := h 0 (by decide)
  rw [htrace, List.drop_left] at hdel
  exact ⟨sys, sys', hsys, htick, by rw [hqueue, hdel], by rw [hsame]⟩

end MiniBeam
