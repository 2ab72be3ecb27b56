import MiniBeam.Verification.Flow.Runs
import Mathlib.Tactic.IntervalCases

/-! Compiled flows never fault. -/

namespace MiniBeam

/-- The pc stands at the start of an instruction of the program. -/
def Process.AtInstr (p : Process) : Prop :=
  Boundary p.program p.pc ∧ ∃ i pc, decode p.program p.pc = (.ok i, pc)

/-- Where the loop of a process starts, in a flow with `n` sensors. -/
def loopStart (n : ℕ) (i : Slot) : ℕ :=
  if i.val < n then (sensorInit 0 0 0 0 0 0).length else 0

section Positions

variable {f : FlowSpec} {s : Sensor} {i : Slot} {p : Process}

theorem SensorAt.atInstr {σ : SensorState} (h : SensorAt f s i p σ) : p.AtInstr := by
  have hlt : σ.next < (f.sensorCode s).length := h.next_lt
  refine ⟨?_, _, _, h.decode_eq rfl (List.getElem?_eq_getElem hlt)⟩
  rw [h.program, h.pc, f.sensorProgram_eq]
  exact boundary_offset (f.sensorCode_encodable s) (Nat.le_of_lt hlt)

theorem ActuatorAt.atInstr {σ : ActuatorState} (h : ActuatorAt f i p σ) : p.AtInstr := by
  have hlt : σ.next < actuatorCode.length := by
    cases σ <;> simp [ActuatorState.next, actuatorCode]
  refine ⟨?_, _, _, h.decode_eq (List.getElem?_eq_getElem hlt)⟩
  rw [h.program, h.pc, actuatorProgram_eq]
  exact boundary_offset actuatorCode_encodable (Nat.le_of_lt hlt)

/-- Only the last instruction of a sensor is a jump. -/
theorem SensorAt.jumps {σ : SensorState} {offset : I32} {pc : ℕ} (h : SensorAt f s i p σ)
    (hd : decode p.program p.pc = (.ok (.jmp offset), pc)) : σ.next = 12 := by
  have hjmp := h.instr_eq hd
  have hnext := h.next_lt
  by_contra hne
  obtain ⟨k, hk, hk12⟩ : ∃ k, σ.next = k ∧ k < 12 := ⟨σ.next, rfl, by omega⟩
  rw [hk] at hjmp
  have hcode : (f.sensorCode s)[11]? = some s.rest := rfl
  interval_cases k
  all_goals first
    | (rw [hcode, Option.some.injEq, Sensor.rest] at hjmp; split at hjmp <;> cases hjmp)
    | simp [FlowSpec.sensorCode, FlowSpec.loads] at hjmp

theorem ActuatorAt.jumps {σ : ActuatorState} {offset : I32} {pc : ℕ} (h : ActuatorAt f i p σ)
    (hd : decode p.program p.pc = (.ok (.jmp offset), pc)) : σ = .looping := by
  cases σ with
  | looping => rfl
  | receiving =>
      have hdecode := h.decode_eq (show actuatorCode[_]? = some (.recvCmd 0 1 2 3 4) from rfl)
      rw [hd] at hdecode
      cases hdecode
  | driving duty =>
      have hdecode := h.decode_eq (show actuatorCode[_]? = some (.callBif 2 [1, 2] 5) from rfl)
      rw [hd] at hdecode
      cases hdecode

end Positions

section Steps

variable {hal : Hal} {f : FlowSpec} {self : Slot} {sys sys' : System} {a a' : FlowState}

/-- A round without an error executed an instruction that returned `MB_OK`. -/
theorem runRound_executed {rc : Option Status} (hready : (sys.sched.proc self).state = .ready)
    (hh : (sys.sched.proc self).halted = false)
    (hb : (sys.sched.proc self).reductions < maxReductions)
    (h : runRound hal maxReductions (sys.machine self) = .ok (rc, sys'.machine self))
    (hrc : rc.isSome → rc = some .ok) :
    ∃ sys₁ : System, mbProcStep hal (sys.machine self) = .ok (.ok, sys₁.machine self) ∧
      (sys'.sched.proc self).pc = (sys₁.sched.proc self).pc := by
  have hgo : ¬ ((sys.machine self).proc.halted = true ∨
      (sys.machine self).proc.reductions ≥ maxReductions) := by
    have hp : (sys.machine self).proc = sys.sched.proc self := rfl
    rw [hp, hh]
    simpa using hb
  rw [runRound, if_neg hgo] at h
  obtain ⟨⟨rc', m⟩, hstep, h⟩ := bind_eq_ok.mp h
  obtain ⟨sys₁, rfl, -⟩ := mbProcStep_moves hready hstep
  dsimp only at h
  have hok : rc' = .ok := by
    by_contra hne
    rw [if_pos hne] at h
    simp only [pure_ok, Except.ok.injEq, Prod.mk.injEq] at h
    have hsome := hrc (by rw [← h.1]; rfl)
    rw [← h.1, Option.some.injEq] at hsome
    exact hne hsome
  subst hok
  refine ⟨sys₁, hstep, ?_⟩
  simp only [ne_eq, not_true_eq_false, if_false] at h
  split at h
  · simp only [pure_ok, Except.ok.injEq, Prod.mk.injEq, System.machine_inj] at h
    rw [h.2]
  · simp only [pure_ok, Except.ok.injEq, Prod.mk.injEq] at h
    have hsys : System.mk (sys₁.sched.setProc self { sys₁.sched.proc self with
        reductions := (sys₁.sched.proc self).reductions + 1 }) sys₁.trace = sys' :=
      System.machine_inj.mp h.2
    rw [← hsys, Scheduler.proc_setProc_self]

/-- Every instruction of a slice returns `MB_OK`, and a jump goes to the start of its loop. -/
theorem InSlice.executes (hal : Hal) (h : InSlice f self sys a)
    (hb : (sys.sched.proc self).reductions < maxReductions) :
    ∃ sys' : System, mbProcStep hal (sys.machine self) = .ok (.ok, sys'.machine self) ∧
      ∀ offset pc, decode (sys.sched.proc self).program (sys.sched.proc self).pc =
        (.ok (.jmp offset), pc) → (sys'.sched.proc self).pc = loopStart f.sensors.length self := by
  obtain ⟨ends, sys₁, a', hrun, hstep, hrep, -⟩ := h.simulated hal
  have hnotfree : ¬ f.sensors.length < self.val := fun hlt => by
    have hfree := (h.represents.free self).mpr hlt
    rw [h.ready] at hfree
    cases hfree
  have hrc : (if ends then some Status.ok else none).isSome →
      (if ends then some Status.ok else none) = some .ok := by cases ends <;> simp
  have hleft : a.budget < maxReductions := h.budget ▸ hb
  rcases Nat.lt_or_eq_of_le (Nat.le_of_not_lt hnotfree) with hlt | heq
  · have hs := List.getElem?_eq_getElem hlt
    have hat := h.represents.sensor self _ hs
    obtain ⟨sys', hexec, hpc⟩ := runRound_executed h.ready hat.halted hb hrun hrc
    refine ⟨sys', hexec, fun offset pc hd => ?_⟩
    have hnext := hat.jumps hd
    have hafter : (a'.sensor self).next = 8 := by
      cases hstep
      all_goals first
        | omega
        | simp
    have hat' := hrep.sensor self _ hs
    rw [← hpc, hat'.pc, hafter, loopStart, if_pos hlt, f.sensor_loop]
  · have hat := h.represents.actuator self heq
    obtain ⟨sys', hexec, hpc⟩ := runRound_executed h.ready hat.halted hb hrun hrc
    refine ⟨sys', hexec, fun offset pc hd => ?_⟩
    have hnext := hat.jumps hd
    have hnone : ∀ s : Sensor, f.sensors[self.val]? ≠ some s := fun s => FlowSpec.no_sensor heq
    have hafter : a'.actuator = .receiving := by
      cases hstep with
      | loop => rfl
      | spent out => omega
      | block _ _ at_ => rw [hnext] at at_; cases at_
      | receive _ _ at_ => rw [hnext] at at_; cases at_
      | drive _ _ at_ => rw [hnext] at at_; cases at_
      | load _ sensor | read _ sensor | clock _ sensor | lost _ sensor | send _ sensor
      | yield _ sensor | sleep _ sensor | jump _ sensor => exact absurd sensor (hnone _)
    have hat' := hrep.actuator self heq
    rw [← hpc, hat'.pc, hafter, loopStart, if_neg (by omega)]
    rfl

end Steps

/-- The process of an occupied slot runs the program deployed there, from one of its
instructions. -/
theorem Represents.positions {f : FlowSpec} {sys : System} {a : FlowState}
    (h : Represents f sys a) {i : Slot} (hi : (sys.sched.proc i).state ≠ .free) :
    (f.sensors.map f.sensorProgram ++ [compileActuator])[i.val]? =
      some (sys.sched.proc i).program ∧ (sys.sched.proc i).AtInstr := by
  have hle : i.val ≤ f.sensors.length := Nat.le_of_not_lt fun hlt => hi ((h.free i).mpr hlt)
  rcases Nat.lt_or_eq_of_le hle with hlt | heq
  · have hs := List.getElem?_eq_getElem hlt
    have hat := h.sensor i _ hs
    refine ⟨?_, hat.atInstr⟩
    rw [List.getElem?_append_left (by simpa using hlt), List.getElem?_map, hs, hat.program]
    rfl
  · have hat := h.actuator i heq
    refine ⟨?_, hat.atInstr⟩
    rw [List.getElem?_append_right (by simp [heq]), hat.program]
    simp [heq]

/-- In every run of a flow that compiles: each tick returns `MB_OK` or `MB_SCHED_IDLE`; each
process runs its compiled program and stands at one of its instructions; and each
instruction of a slice returns `MB_OK`, a jump going to the start of its loop. -/
theorem flow_never_faults {flow : ErlTerm} {progs : List (List Byte)} {act : List Byte}
    (h : compile flow = .ok (progs, act)) (hal : Hal) :
    (∀ sys, FlowRuns hal progs act sys →
      ∃ rc sys', mbSchedTick hal sys = .ok (rc, sys') ∧ (rc = .ok ∨ rc = .schedIdle)) ∧
    (∀ sys, FlowReached hal progs act sys → ∀ i : Slot, (sys.sched.proc i).state ≠ .free →
      (progs ++ [act])[i.val]? = some (sys.sched.proc i).program ∧ (sys.sched.proc i).AtInstr) ∧
    (∀ self sys, FlowDispatched hal progs act self sys →
      (sys.sched.proc self).reductions < maxReductions →
      ∃ sys' : System, mbProcStep hal (sys.machine self) = .ok (.ok, sys'.machine self) ∧
        ∀ offset pc, decode (sys.sched.proc self).program (sys.sched.proc self).pc =
          (.ok (.jmp offset), pc) → (sys'.sched.proc self).pc = loopStart progs.length self) := by
  obtain ⟨f, rfl, rfl, -⟩ := compile_ok h
  refine ⟨?_, ?_, ?_⟩
  · intro sys hr
    obtain ⟨a, hrep, -⟩ := flow_refines hr
    exact hrep.tick
  · intro sys hr i hi
    rcases hr with hr | ⟨self, hd⟩
    · obtain ⟨a, hrep, -⟩ := flow_refines hr
      exact hrep.positions hi
    · obtain ⟨a, hslice, -⟩ := flow_refines_slice hd
      exact hslice.represents.positions hi
  · intro self sys hd hb
    obtain ⟨a, hslice, -⟩ := flow_refines_slice hd
    have hexec := hslice.executes hal hb
    rwa [← show (f.sensors.map f.sensorProgram).length = f.sensors.length from List.length_map _]
      at hexec

/-- The first tick of the flow of one sensor, on hardware that answers zero. -/
theorem flow_never_faults_fastPoll :
    ∃ rc sys', mbSchedTick (fun _ _ => ⟨0, 0, 0⟩)
      ⟨deploy [compileSensor 1 0x39 0x92 1 0 2] compileActuator, []⟩ = .ok (rc, sys') ∧
      (rc = .ok ∨ rc = .schedIdle) :=
  (flow_never_faults (show compile (fastPoll 1) = _ from rfl) _).1 _ .deployed

end MiniBeam
