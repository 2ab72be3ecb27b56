import MiniBeam.Verification.Flow.Refine
import MiniBeam.Verification.Scheduler.History

/-! Runs of a deployed flow: ticks without sends from outside. They refine the runs of the
abstract machine, and no tick returns an error. -/

namespace MiniBeam

/-- The states between the ticks of a flow deployed with these programs. -/
inductive FlowRuns (hal : Hal) (sensors : List (List Byte)) (actuator : List Byte) : System → Prop
  | deployed : FlowRuns hal sensors actuator ⟨deploy sensors actuator, []⟩
  | tick {sys sys' : System} {rc : Status} (before : FlowRuns hal sensors actuator sys)
      (tick : mbSchedTick hal sys = .ok (rc, sys')) : FlowRuns hal sensors actuator sys'

/-- The states inside a tick, where a round of the process in slot `self` is about to start. -/
inductive FlowDispatched (hal : Hal) (sensors : List (List Byte)) (actuator : List Byte)
    (self : Slot) : System → Prop
  | start {sys sys₁ : System} (run : FlowRuns hal sensors actuator sys)
      (pick : mbSchedPick hal sys = .ok (some self, sys₁)) :
      FlowDispatched hal sensors actuator self (sys₁.startSlice self)
  | next {sys sys' : System} (before : FlowDispatched hal sensors actuator self sys)
      (round : runRound hal maxReductions (sys.machine self) = .ok (none, sys'.machine self)) :
      FlowDispatched hal sensors actuator self sys'

/-- Every state of a run of a flow, between ticks or between instructions. -/
def FlowReached (hal : Hal) (sensors : List (List Byte)) (actuator : List Byte) (sys : System) :
    Prop :=
  FlowRuns hal sensors actuator sys ∨ ∃ self, FlowDispatched hal sensors actuator self sys

theorem FlowRuns.ticks {hal : Hal} {sensors : List (List Byte)} {actuator : List Byte}
    {sys sys' : System} {n : ℕ} (h : FlowRuns hal sensors actuator sys)
    (hr : runCalls hal sys (List.replicate n .tick) = .ok sys') :
    FlowRuns hal sensors actuator sys' := by
  induction n generalizing sys with
  | zero =>
      rw [← Except.ok.inj hr]
      exact h
  | succ n ih =>
      obtain ⟨sys₁, hcall, hrest⟩ := bind_eq_ok.mp hr
      obtain ⟨⟨rc, sys₂⟩, htick, hcall⟩ := bind_eq_ok.mp hcall
      rw [← Except.ok.inj hcall] at hrest
      exact ih (.tick h htick) hrest

/-- The state before round `k` of a slice. -/
def sliceRounds (hal : Hal) (self : Slot) : ℕ → System → Except Fault System
  | 0, sys => .ok sys
  | k + 1, sys => do
    match ← runRound hal maxReductions (sys.machine self) with
    | (none, m) => sliceRounds hal self k (m.system sys)
    | (some _, _) => .error .fuel

/-- The state before round `k` of the slice after `n` ticks, if `self` is chosen for it. -/
def stateAt (hal : Hal) (sensors : List (List Byte)) (actuator : List Byte) (n : ℕ) (self : Slot)
    (k : ℕ) : Except Fault System := do
  let sys ← runCalls hal ⟨deploy sensors actuator, []⟩ (List.replicate n .tick)
  let (found, sys) ← mbSchedPick hal sys
  if found = some self then sliceRounds hal self k (sys.startSlice self) else .error .fuel

theorem FlowDispatched.rounds {hal : Hal} {sensors : List (List Byte)} {actuator : List Byte}
    {self : Slot} {sys sys' : System} {k : ℕ} (hready : (sys.sched.proc self).state = .ready)
    (h : FlowDispatched hal sensors actuator self sys)
    (hr : sliceRounds hal self k sys = .ok sys') :
    FlowDispatched hal sensors actuator self sys' := by
  induction k generalizing sys with
  | zero =>
      rw [← Except.ok.inj hr]
      exact h
  | succ k ih =>
      obtain ⟨⟨end?, m⟩, hround, hr⟩ := bind_eq_ok.mp hr
      obtain ⟨sys₁, rfl, -, hnone⟩ := runRound_moves hready hround
      cases end? with
      | some rc => cases hr
      | none => exact ih (hnone rfl) (.next h hround) hr

theorem FlowDispatched.at {hal : Hal} {sensors : List (List Byte)} {actuator : List Byte}
    {self : Slot} {sys : System} {n k : ℕ} (h : stateAt hal sensors actuator n self k = .ok sys) :
    FlowDispatched hal sensors actuator self sys := by
  obtain ⟨sys₀, hticks, h⟩ := bind_eq_ok.mp h
  obtain ⟨⟨found, sys₁⟩, hpick, h⟩ := bind_eq_ok.mp h
  dsimp only at h
  split at h
  · rename_i hfound
    subst hfound
    refine FlowDispatched.rounds ?_ (.start (FlowRuns.deployed.ticks hticks) hpick) h
    rw [System.startSlice, Scheduler.proc_setProc_self]
    exact mbSchedPick_ready hpick
  · cases h

section Refinement

variable {hal : Hal} {f : FlowSpec} {sys sys' sys₁ : System} {a a' : FlowState} {self : Slot}

/-- The table after the deployment. -/
theorem represents_deploy (f : FlowSpec) :
    Represents f ⟨deploy (f.sensors.map f.sensorProgram) compileActuator, []⟩ .initial := by
  have hspawned := deploy_spawned (f.sensors.map f.sensorProgram) compileActuator
  have hlength : (f.sensors.map f.sensorProgram ++ [compileActuator]).length =
      f.sensors.length + 1 := by simp
  have hempty : f.inbox .empty = Inbox.empty := rfl
  refine ⟨rfl, ?_, ?_, ?_, ?_⟩
  · intro i
    rw [hspawned.free_iff, hlength]
    omega
  · intro i
    have hzero := Mailbox.zero_holds
    rw [hspawned i]
    split <;> exact hzero
  · intro i s hs
    have hget : (f.sensors.map f.sensorProgram ++ [compileActuator])[i.val]? =
        some (f.sensorProgram s) := by
      rw [List.getElem?_append_left (by simpa using (List.getElem?_eq_some_iff.mp hs).1),
        List.getElem?_map, hs]
      rfl
    rw [hspawned i, hget]
    exact .fresh f s i
  · intro i hi
    have hget : (f.sensors.map f.sensorProgram ++ [compileActuator])[i.val]? =
        some compileActuator := by
      rw [List.getElem?_append_right (by simp [hi])]
      simp [hi]
    rw [hspawned i, hget]
    exact ⟨rfl, rfl, rfl, rfl, nofun⟩

theorem Represents.wake (h : Represents f sys a) :
    Represents f (mbSchedWakeSleepers hal sys) (a.wake hal) := by
  have hproc := proc_wakeSleepers hal sys
  refine ⟨?_, ?_, ?_, ?_, ?_⟩
  · simp only [mbSchedWakeSleepers, h.trace, FlowState.wake, FlowState.emit]
  · intro i
    rw [hproc, wake_free]
    exact h.free i
  · intro i
    rw [hproc, wake_mailbox]
    exact h.holds i
  · intro i s hs
    rw [hproc]
    unfold MiniBeam.wake
    split <;> exact (h.sensor i s hs).congr rfl rfl rfl rfl rfl
  · intro i hi
    rw [hproc]
    unfold MiniBeam.wake
    split <;> exact (h.actuator i hi).congr rfl rfl rfl rfl rfl

/-- Choosing a process wakes the sleepers and moves `current`. -/
theorem Represents.pick {found : Option Slot} (h : Represents f sys a)
    (hpick : mbSchedPick hal sys = .ok (found, sys₁)) : Represents f sys₁ (a.wake hal) := by
  obtain ⟨found', current, hpick', -, -⟩ := mbSchedPick_ok hal sys
  simp only [hpick, Except.ok.injEq, Prod.mk.injEq] at hpick'
  rw [hpick'.2]
  exact h.wake.congr rfl fun _ => rfl

theorem Represents.startSlice (h : Represents f sys a)
    (hready : (sys.sched.proc self).state = .ready) :
    InSlice f self (sys.startSlice self) (a.setBudget 0) := by
  have hproc : (sys.startSlice self).sched.proc self =
      { sys.sched.proc self with reductions := 0 } := Scheduler.proc_setProc_self _ _ _
  refine ⟨?_, ?_, ?_⟩
  · exact (h.update (q := { sys.sched.proc self with reductions := 0 }) h.trace (h.free self)
      (h.holds self) (fun s hs => (h.sensor self s hs).congr rfl rfl rfl rfl rfl)
      (fun ha => (h.actuator self ha).congr rfl rfl rfl rfl rfl) (fun _ _ => rfl)
      (fun _ _ => rfl) (fun _ => rfl)).setBudget 0
  · rw [hproc]
    exact hready
  · rw [hproc]
    rfl

/-- A round of a slice, seen from the interpreter. -/
theorem InSlice.round {rc : Option Status} (h : InSlice f self sys a)
    (hround : runRound hal maxReductions (sys.machine self) = .ok (rc, sys'.machine self)) :
    ∃ a', FlowStep hal f self a rc.isSome a' ∧ Represents f sys' a' ∧
      (rc = none → InSlice f self sys' a') ∧ (rc.isSome → rc = some .ok) := by
  obtain ⟨ends, sys₂, a', hrun, hstep, hrep, hnext⟩ := h.simulated hal
  rw [hround] at hrun
  simp only [Except.ok.injEq, Prod.mk.injEq, System.machine_inj] at hrun
  obtain ⟨rfl, rfl⟩ := hrun
  cases ends with
  | false => exact ⟨a', hstep, hrep, fun _ => hnext rfl, by simp⟩
  | true => exact ⟨a', hstep, hrep, by simp, fun _ => rfl⟩

/-- A slice that finishes is a sequence of rounds of the flow. -/
theorem InSlice.loop {fuel : ℕ} {rc : Status} (h : InSlice f self sys a)
    (hreach : FlowReach hal f (some self) a)
    (hrun : runLoop hal maxReductions fuel (sys.machine self) = .ok (rc, sys'.machine self)) :
    ∃ a', Represents f sys' a' ∧ FlowReach hal f none a' := by
  induction fuel generalizing sys a with
  | zero => simp [runLoop] at hrun
  | succ fuel ih =>
      obtain ⟨⟨end?, m⟩, hround, hrun⟩ := bind_eq_ok.mp hrun
      obtain ⟨sys₁, rfl, -⟩ := runRound_moves h.ready hround
      obtain ⟨a', hstep, hrep, hnext, -⟩ := h.round hround
      cases end? with
      | some rc' =>
          simp only [pure_ok, Except.ok.injEq, Prod.mk.injEq, System.machine_inj] at hrun
          obtain ⟨-, rfl⟩ := hrun
          exact ⟨a', hrep, .stop hreach hstep⟩
      | none => exact ih (hnext rfl) (.step hreach hstep) hrun

/-- Every run of the deployed programs is a run of the flow. -/
theorem flow_refines (h : FlowRuns hal (f.sensors.map f.sensorProgram) compileActuator sys) :
    ∃ a, Represents f sys a ∧ FlowReach hal f none a := by
  induction h with
  | deployed => exact ⟨.initial, represents_deploy f, .start⟩
  | tick _ htick ih =>
      obtain ⟨a, hrep, hreach⟩ := ih
      rcases mbSchedTick_cases htick with ⟨hpick, -⟩ | ⟨self, sys₁, hpick, hrun⟩
      · exact ⟨_, hrep.pick hpick, .idle hreach⟩
      · exact ((hrep.pick hpick).startSlice (mbSchedPick_ready hpick)).loop (.pick self hreach) hrun

theorem flow_refines_slice
    (h : FlowDispatched hal (f.sensors.map f.sensorProgram) compileActuator self sys) :
    ∃ a, InSlice f self sys a ∧ FlowReach hal f (some self) a := by
  induction h with
  | start run pick =>
      obtain ⟨a, hrep, hreach⟩ := flow_refines run
      exact ⟨_, (hrep.pick pick).startSlice (mbSchedPick_ready pick), .pick self hreach⟩
  | next _ round ih =>
      obtain ⟨a, hslice, hreach⟩ := ih
      obtain ⟨a', hstep, -, hnext, -⟩ := hslice.round round
      exact ⟨a', hnext rfl, .step hreach hstep⟩

/-! ### Ticks return -/

/-- A round that goes on uses up the budget. -/
theorem FlowStep.budget (h : FlowStep hal f self a false a') :
    a.budget < a'.budget ∧ a.budget < maxReductions := by
  cases h with
  | yield left => exact ⟨by show a.budget < maxReductions + 1; omega, left⟩
  | load left | read left | clock left | lost left | send left | jump left | receive left
  | drive left | loop left => exact ⟨Nat.lt_succ_self _, left⟩

/-- A slice with enough fuel returns `MB_OK`. -/
theorem InSlice.returns {fuel : ℕ} (hal : Hal) (h : InSlice f self sys a) (hpos : 0 < fuel)
    (hfuel : maxReductions + 1 ≤ fuel + a.budget) :
    ∃ sys' : System,
      runLoop hal maxReductions fuel (sys.machine self) = .ok (.ok, sys'.machine self) := by
  induction fuel generalizing sys a with
  | zero => omega
  | succ fuel ih =>
      obtain ⟨ends, sys₁, a', hrun, hstep, -, hnext⟩ := h.simulated hal
      cases ends with
      | true =>
          refine ⟨sys₁, ?_⟩
          rw [runLoop, hrun]
          rfl
      | false =>
          obtain ⟨hgrow, hleft⟩ := hstep.budget
          obtain ⟨sys', hrest⟩ := ih (hnext rfl) (by omega) (by omega)
          refine ⟨sys', ?_⟩
          rw [runLoop, hrun]
          exact hrest

/-- Every tick of a deployed flow returns `MB_OK` or `MB_SCHED_IDLE`. -/
theorem Represents.tick (h : Represents f sys a) :
    ∃ rc sys', mbSchedTick hal sys = .ok (rc, sys') ∧ (rc = .ok ∨ rc = .schedIdle) := by
  obtain ⟨found, current, hpick, -, hready⟩ := mbSchedPick_ok hal sys
  cases found with
  | none =>
      rw [mbSchedTick, hpick]
      exact ⟨.schedIdle, _, rfl, .inr rfl⟩
  | some self =>
      have hslice := (h.pick hpick).startSlice (hready self rfl)
      obtain ⟨sys', hrun⟩ := hslice.returns hal (Nat.succ_pos maxReductions)
        (Nat.le_add_right _ _)
      refine ⟨.ok, sys', ?_, .inl rfl⟩
      rw [mbSchedTick, hpick, ok_bind]
      dsimp only
      rw [mbProcRun_machine, hrun]
      rfl

end Refinement

end MiniBeam
