import MiniBeam.Verification.Clock
import MiniBeam.Verification.Scheduler.Fairness

/-! When the scheduler rests and what ends it: an idle system does nothing until a sleeper is due,
and a sleeper that is due is not left waiting. -/

namespace MiniBeam

/-- A sleeper whose deadline the clock has reached, as `mb_sched_wake_sleepers` compares them. -/
def Process.Due (now : BitVec 32) (p : Process) : Prop :=
  p.state = .sleeping ∧ p.sleepUntilMs ≤ now

section Idle

variable {hal : Hal} {sys sys' : System}

theorem Process.wake_due {now : BitVec 32} {p : Process} (h : p.Due now) :
    (wake now p).state = .ready := by
  have hwake : wake now p = { p with state := .ready } := if_pos h
  rw [hwake]

theorem Process.wake_not_due {now : BitVec 32} {p : Process} (h : ¬ p.Due now) : wake now p = p :=
  if_neg h

/-- A pass that wakes nobody leaves the table as it is. -/
theorem wakeSleepers_sched (h : ∀ i, ¬ (sys.sched.proc i).Due (hal sys.trace .monotonicMs).ms) :
    (mbSchedWakeSleepers hal sys).sched = sys.sched := by
  have hprocs : sys.sched.procs.map (wake (hal sys.trace .monotonicMs).ms) = sys.sched.procs := by
    ext1 i hi
    rw [Vector.getElem_map]
    exact Process.wake_not_due (h ⟨i, hi⟩)
  rw [mbSchedWakeSleepers, hprocs]

/-- An idle tick found nobody ready and nobody due. -/
theorem idle_quiet (h : mbSchedTick hal sys = .ok (.schedIdle, sys')) :
    (∀ i, (sys.sched.proc i).state ≠ .ready) ∧
      (∀ i, ¬ (sys.sched.proc i).Due (hal sys.trace .monotonicMs).ms) ∧
      sys' = mbSchedWakeSleepers hal sys := by
  rcases mbSchedTick_slice h with ⟨-, hpick, hnone⟩ | ⟨hne, -⟩
  · have hdue : ∀ i, ¬ (sys.sched.proc i).Due (hal sys.trace .monotonicMs).ms := by
      intro i hi
      apply hnone i
      rw [proc_wakeSleepers]
      exact Process.wake_due hi
    refine ⟨fun i hi => hnone i ?_, hdue, ?_⟩
    · rw [proc_wakeSleepers, Process.wake_not_due (hdue i)]
      exact hi
    · obtain ⟨found, -, hend⟩ := bind_eq_ok.mp hpick
      cases found with
      | some idx => cases hend
      | none =>
          cases hend
          rfl
  · exact absurd rfl hne

theorem quiet_idle (hready : ∀ i, (sys.sched.proc i).state ≠ .ready)
    (hdue : ∀ i, ¬ (sys.sched.proc i).Due (hal sys.trace .monotonicMs).ms) :
    mbSchedTick hal sys = .ok (.schedIdle, mbSchedWakeSleepers hal sys) := by
  obtain ⟨found, current, hpick, -, hfound⟩ := mbSchedPick_ok hal sys
  cases found with
  | some self =>
      have hself := hfound self rfl
      rw [proc_wakeSleepers, Process.wake_not_due (hdue self)] at hself
      exact absurd hself (hready self)
  | none =>
      rw [mbSchedTick, hpick, ok_bind]
      obtain ⟨found, -, hend⟩ := bind_eq_ok.mp hpick
      cases found with
      | some idx => cases hend
      | none =>
          rw [← Except.ok.inj hend]
          rfl

/-- Behind an idle tick, further ticks read the clock and do nothing else until one of them finds
a sleeper due; without a sleeper they never do. -/
theorem idle_until (h : mbSchedTick hal sys = .ok (.schedIdle, sys')) (n : ℕ) :
    (∃ sys₂, runCalls hal sys' (List.replicate n .tick) = .ok sys₂ ∧ sys₂.sched = sys.sched ∧
        sys₂.trace.length = sys.trace.length + n + 1) ∨
      ∃ k s i, k < n ∧ runCalls hal sys' (List.replicate k .tick) = .ok s ∧
        s.sched = sys.sched ∧ (sys.sched.proc i).Due (hal s.trace .monotonicMs).ms := by
  obtain ⟨hready, hdue, rfl⟩ := idle_quiet h
  have hsched := wakeSleepers_sched hdue
  induction n with
  | zero =>
      refine .inl ⟨_, rfl, hsched, ?_⟩
      simp [mbSchedWakeSleepers]
  | succ n ih =>
      rcases ih with ⟨sys₂, hrun, hsame, hlen⟩ | ⟨k, s, i, hk, hrun, hsame, hi⟩
      · by_cases hnext : ∀ i, ¬ (sys.sched.proc i).Due (hal sys₂.trace .monotonicMs).ms
        · have htick : mbSchedTick hal sys₂ = .ok (.schedIdle, mbSchedWakeSleepers hal sys₂) :=
            quiet_idle (by rwa [hsame]) (by rwa [hsame])
          refine .inl ⟨mbSchedWakeSleepers hal sys₂, ?_, ?_, ?_⟩
          · rw [List.replicate_succ', runCalls_append, hrun, ok_bind, runCalls, runCall, htick]
            rfl
          · rw [wakeSleepers_sched (by rwa [hsame]), hsame]
          · simp [mbSchedWakeSleepers, hlen]
            omega
        · obtain ⟨i, hi⟩ := not_forall_not.mp hnext
          exact .inr ⟨n, sys₂, i, Nat.lt_succ_self n, hrun, hsame, hi⟩
      · exact .inr ⟨k, s, i, Nat.lt_succ_of_lt hk, hrun, hsame, hi⟩

end Idle

/-- A sleeper on a clock that counts the events: the tick behind its `SLEEP_MS` is idle. -/
theorem idle_until_sleeper : ∃ sys sys', (sys.sched.proc 0).state = .sleeping ∧
    mbSchedTick (tickingHal 0) sys = .ok (.schedIdle, sys') ∧
    ((∃ sys₂, runCalls (tickingHal 0) sys' (List.replicate 7 .tick) = .ok sys₂ ∧
        sys₂.sched = sys.sched ∧ sys₂.trace.length = sys.trace.length + 7 + 1) ∨
      ∃ k s i, k < 7 ∧ runCalls (tickingHal 0) sys' (List.replicate k .tick) = .ok s ∧
        s.sched = sys.sched ∧ (sys.sched.proc i).Due (tickingHal 0 s.trace .monotonicMs).ms) := by
  obtain ⟨sys, -, hstate⟩ := exists_ok_of_map
    (runCalls (tickingHal 0) System.init [.spawn [0x01, 0, 5, 0, 0, 0, 0x40, 0], .tick])
    (fun sys => ((sys.sched.proc 0).state, (mbSchedTick (tickingHal 0) sys).map Prod.fst))
    (.sleeping, .ok .schedIdle) (by decide +kernel)
  obtain ⟨hstate, hidle⟩ := Prod.mk.inj hstate
  obtain ⟨⟨rc, sys'⟩, htick, rfl⟩ := exists_ok_of_map _ _ _ hidle
  exact ⟨sys, sys', hstate, htick, idle_until htick 7⟩

section Due

variable {hal : Hal} {sys sys' : System} {p : Slot}

/-- A tick that wakes a process and dispatches another leaves it ready. -/
theorem mbSchedTick_woken {found : Option Slot} {sys₁ : System} {rc : Status} (hr : Runs hal sys)
    (hdue : (sys.sched.proc p).Due (hal sys.trace .monotonicMs).ms)
    (hpick : mbSchedPick hal sys = .ok (found, sys₁)) (hne : found ≠ some p)
    (h : mbSchedTick hal sys = .ok (rc, sys')) : (sys'.sched.proc p).state = .ready := by
  have hready := Process.wake_due hdue
  cases found with
  | none =>
      rw [← proc_wakeSleepers] at hready
      exact absurd hready (mbSchedPick_none hpick p)
  | some self =>
      have hself : p ≠ self := fun he => hne (he ▸ rfl)
      obtain ⟨events, -, hframe⟩ := Moves.frame
        (ledgers_invariant.pick hpick (ledgers_invariant.runs hr)) hself (mbSchedTick_moves hpick h)
      rw [mbSchedPick_proc hpick p] at hframe
      rcases hframe.state with hs | ⟨hs, -⟩
      · rw [hs, hready]
      · rw [hready] at hs
        cases hs

/-- A process that is due at a tick is dispatched by it or within the next eight, whatever is
spawned and sent between them. -/
theorem due_dispatched {cs : List Call} (hr : Runs hal sys)
    (hdue : (sys.sched.proc p).Due (hal sys.trace .monotonicMs).ms)
    (h : runCalls hal sys (.tick :: cs) = .ok sys') (hticks : maxProcesses ≤ cs.count .tick) :
    ∃ before after sys₁ sys₂, .tick :: cs = before ++ .tick :: after ∧
      before.count .tick ≤ maxProcesses ∧ runCalls hal sys before = .ok sys₁ ∧
      mbSchedPick hal sys₁ = .ok (some p, sys₂) := by
  have hmax : maxProcesses = 8 := rfl
  obtain ⟨sys₁, hcall, hrest⟩ := bind_eq_ok.mp h
  obtain ⟨⟨rc, sys₂⟩, htick, hend⟩ := bind_eq_ok.mp hcall
  cases hend
  obtain ⟨found, current, hpick, -⟩ := mbSchedPick_ok hal sys
  by_cases hfound : found = some p
  · exact ⟨[], cs, sys, _, rfl, Nat.zero_le _, rfl, hfound ▸ hpick⟩
  · have hready := mbSchedTick_woken hr hdue hpick hfound htick
    have hlt : sys₂.sched.distance p < 8 := Int.emod_lt_of_pos _ (by decide)
    obtain ⟨before, after, s₁, s₂, rfl, hcount, hrun, hdispatch⟩ :=
      ready_dispatched (hr.call hcall) hready hrest (by dsimp only; omega)
    refine ⟨.tick :: before, after, s₁, s₂, rfl, ?_, ?_, hdispatch⟩
    · rw [List.count_cons_self]
      dsimp only at hcount
      omega
    · rw [runCalls, hcall]
      exact hrun

end Due

/-- A delay of nothing on a clock that stands still. -/
theorem due_dispatched_sleeper : ∃ (sys sys₁ sys₂ : System) (before : List Call),
    (sys.sched.proc 0).state = .sleeping ∧ before.count .tick ≤ 8 ∧
    runCalls idleHal sys before = .ok sys₁ ∧
    mbSchedPick idleHal sys₁ = .ok (some 0, sys₂) := by
  obtain ⟨sys, hrun, hsleep⟩ := exists_ok_of_map
    (runCalls idleHal System.init
      [.spawn [0x01, 0, 0, 0, 0, 0, 0x40, 0], .tick])
    (fun sys => ((sys.sched.proc 0).state, (sys.sched.proc 0).sleepUntilMs,
      (runCalls idleHal sys (List.replicate 9 .tick)).map fun _ => ()))
    (.sleeping, 0, .ok ()) (by decide +kernel)
  obtain ⟨hstate, hsleep⟩ := Prod.mk.inj hsleep
  obtain ⟨hdeadline, hticks⟩ := Prod.mk.inj hsleep
  obtain ⟨sys', hrun', -⟩ := exists_ok_of_map _ _ _ hticks
  obtain ⟨before, -, sys₁, sys₂, -, hcount, hbefore, hpick⟩ := due_dispatched ⟨_, hrun⟩
    ⟨hstate, hdeadline ▸ BitVec.le_refl _⟩ hrun' (Nat.le_refl _)
  exact ⟨sys, sys₁, sys₂, before, hstate, hcount, hbefore, hpick⟩

end MiniBeam
