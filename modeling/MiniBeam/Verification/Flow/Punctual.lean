import MiniBeam.Verification.Flow.Throughput
import MiniBeam.Verification.Scheduler.Idle

/-! The sensors of a compiled flow are not late: once the clock has passed its delay, a sensor reads
within nine ticks. -/

namespace MiniBeam

section Punctual

variable {hal : Hal} {f : FlowSpec} {i : Slot} {s : Sensor} {sys sys' : System} {a : FlowState}

/-- A ready sensor makes a read within eight ticks. -/
theorem FlowAt.ready_reads (h : FlowAt hal f sys a) (hsensor : f.sensors[i.val]? = some s)
    (hready : (sys.sched.proc i).state = .ready)
    (hrun : runCalls hal sys (List.replicate 8 .tick) = .ok sys') :
    ∃ events, sys'.trace = sys.trace ++ events ∧ 1 ≤ (replies i.pid events).length := by
  obtain ⟨a₁, a₂, a', hreach, ⟨u, hu⟩, hslice, -, ⟨v, hv⟩, h'⟩ := h.dispatched hready hrun
  obtain ⟨events, htrace, -, hone⟩ := hslice.one_read hreach hsensor
  refine ⟨u ++ (events ++ v), ?_, ?_⟩
  · rw [h'.represents.trace, h.represents.trace, ← hv, htrace, ← hu]
    simp only [List.append_assoc]
  · rw [replies_append, replies_append, List.length_append, List.length_append]
    omega

/-- A sensor that does not sleep past the reading of the next tick makes a read within nine. -/
theorem FlowAt.due_reads (h : FlowAt hal f sys a) (hsensor : f.sensors[i.val]? = some s)
    (hdue : (sys.sched.proc i).state = .ready ∨
      (sys.sched.proc i).Due (hal sys.trace .monotonicMs).ms)
    (hrun : runCalls hal sys (List.replicate 9 .tick) = .ok sys') :
    ∃ events, sys'.trace = sys.trace ++ events ∧ 1 ≤ (replies i.pid events).length := by
  obtain ⟨sys₁, hcall, hrest⟩ := bind_eq_ok.mp
    (show runCalls hal sys (.tick :: List.replicate 8 .tick) = _ from hrun)
  obtain ⟨⟨rc, sys₂⟩, htick, hend⟩ := bind_eq_ok.mp hcall
  cases hend
  obtain ⟨found, sys₃, a₁, hpick, htick', h₁⟩ := h.tick htick
  by_cases hfound : found = some i
  · subst hfound
    obtain ⟨a', h', ⟨v, hv⟩⟩ := h₁.ticks hrest
    cases htick' with
    | slice slice =>
        obtain ⟨events, htrace, -, hone⟩ := slice.one_read h.reach hsensor
        refine ⟨events ++ v, ?_, ?_⟩
        · rw [h'.represents.trace, h.represents.trace, ← hv, htrace, List.append_assoc]
        · rw [replies_append, List.length_append]
          omega
  · have hready : (sys₂.sched.proc i).state = .ready := by
      rcases hdue with hready | hdue
      · exact (mbSchedTick_distance h.runs hready hpick hfound htick).1
      · exact mbSchedTick_woken h.runs hdue hpick hfound htick
    obtain ⟨events, htrace, hone⟩ := h₁.ready_reads hsensor hready hrest
    obtain ⟨u, hu⟩ := htick'.trace
    refine ⟨u ++ events, ?_, ?_⟩
    · rw [htrace, h₁.represents.trace, h.represents.trace, ← hu, List.append_assoc]
    · rw [replies_append, List.length_append]
      omega

end Punctual

/-- In any run of a compiled flow a sensor is ready, or sleeps to a deadline of its delay behind
its last look at the clock and has read nothing since; and unless it sleeps past the reading
of the next tick, nine ticks return and make a read of it. -/
theorem polls_in_time {flow sensor : ErlTerm} {ss : List ErlTerm} {progs : List (List Byte)}
    {act : List Byte} {i : Slot} {pollMs : ℤ} (h : compile flow = .ok (progs, act))
    (hss : flow.key "sensors" = some (.list ss)) (hsensor : ss[i.val]? = some sensor)
    (hpoll : sensor.key "poll_ms" = some (.int pollMs)) {hal : Hal} {sys : System}
    (hr : FlowRuns hal progs act sys) :
    ((sys.sched.proc i).state = .ready ∨ (sys.sched.proc i).state = .sleeping ∧
      Slept i.pid (held (BitVec.ofInt 32 pollMs)) (sys.sched.proc i).sleepUntilMs sys.trace) ∧
    ((sys.sched.proc i).state = .ready ∨
      (sys.sched.proc i).sleepUntilMs ≤ (hal sys.trace .monotonicMs).ms →
      ∃ sys' events, runCalls hal sys (List.replicate 9 .tick) = .ok sys' ∧
        sys'.trace = sys.trace ++ events ∧ 1 ≤ (replies i.pid events).length) := by
  obtain ⟨f, rfl, rfl, hall⟩ := compile_sensors h hss
  obtain ⟨s, hs, rfl⟩ := describes_entry hall hsensor hpoll
  obtain ⟨a, hat⟩ := hr.at
  have hstate : (sys.sched.proc i).state = .ready ∨ (sys.sched.proc i).state = .sleeping ∧
      Slept i.pid (held (BitVec.ofInt 32 s.pollMs)) (sys.sched.proc i).sleepUntilMs sys.trace := by
    by_cases hready : (sys.sched.proc i).state = .ready
    · exact .inl hready
    · obtain ⟨hsleep, -, -, hslept⟩ := (hat.timed.sensor i s hs).asleep hready
      rw [hat.represents.trace]
      exact .inr ⟨hsleep, hslept⟩
  refine ⟨hstate, fun hdue => ?_⟩
  have hdue' : (sys.sched.proc i).state = .ready ∨
      (sys.sched.proc i).Due (hal sys.trace .monotonicMs).ms := by
    rcases hstate with hready | ⟨hsleep, -⟩
    · exact .inl hready
    · exact hdue.imp_right fun hover => ⟨hsleep, hover⟩
  obtain ⟨sys', hrun⟩ := hat.returns 9
  obtain ⟨events, htrace, hone⟩ := hat.due_reads hs hdue' hrun
  exact ⟨sys', events, hrun, htrace, hone⟩

/-- A sensor with a delay of 3 ms sleeps behind the second tick, and is due at the third. -/
theorem polls_in_time_fastPoll : ∃ sys sys' events,
    FlowRuns countingHal [compileSensor 1 0x39 0x92 3 0 2] compileActuator sys ∧
    (sys.sched.proc 0).state = .sleeping ∧
    Slept 1 (held (BitVec.ofInt 32 3)) (sys.sched.proc 0).sleepUntilMs sys.trace ∧
    runCalls countingHal sys (List.replicate 9 .tick) = .ok sys' ∧
    sys'.trace = sys.trace ++ events ∧ 1 ≤ (replies 1 events).length := by
  obtain ⟨sys, hrun, hsleep⟩ := exists_ok_of_map
    (runCalls countingHal ⟨deploy [compileSensor 1 0x39 0x92 3 0 2] compileActuator, []⟩
      (List.replicate 2 .tick))
    (fun sys => ((sys.sched.proc 0).state, decide ((sys.sched.proc 0).sleepUntilMs ≤
      (countingHal sys.trace .monotonicMs).ms))) (.sleeping, true) (by decide +kernel)
  obtain ⟨hstate, hdue⟩ := Prod.mk.inj hsleep
  have hruns := FlowRuns.deployed.ticks hrun
  obtain ⟨hasleep, hreads⟩ :=
    polls_in_time (i := 0) (show compile (fastPoll 3) = _ from rfl) rfl rfl rfl hruns
  obtain ⟨sys', events, hrun', htrace, hone⟩ := hreads (.inr (of_decide_eq_true hdue))
  rcases hasleep with hready | ⟨-, hslept⟩
  · rw [hstate] at hready
    cases hready
  · exact ⟨sys, sys', events, hruns, hstate, hslept, hrun', htrace, hone⟩

end MiniBeam
