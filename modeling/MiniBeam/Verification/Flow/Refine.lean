import MiniBeam.Verification.Flow.Sensor

/-! The deployed bytecode refines the flow: each round of the interpreter is a round of
the abstract machine. -/

namespace MiniBeam

/-! ### What the bytecode represents -/

/-- A process that runs the actuator program, between two instructions. -/
structure ActuatorAt (f : FlowSpec) (i : Slot) (p : Process) (σ : ActuatorState) : Prop where
  program : p.program = compileActuator
  pc : p.pc = offset actuatorCode σ.next
  halted : p.halted = false
  pid : p.pid = i.pid
  duty : ∀ duty, σ = .driving duty → p.int 1 = BitVec.ofInt 32 f.channel ∧ p.int 2 = duty.val

namespace FlowSpec

variable (f : FlowSpec)

theorem channel_valid : mbValidatePwmChannel (BitVec.ofInt 32 f.channel) = true :=
  inRange_ofInt f.channel_range (by decide) (by decide)

/-- A sensor's command is valid when its duty is. -/
theorem validate_command (v : I32) :
    mbValidateCommand (f.command v) = if mbValidatePwmDuty v then .ok else .badArgument := by
  simp [mbValidateCommand, command, CommandType.code, CommandType.ofCode?, f.channel_valid]

/-- The mailbox that holds the commands of a queue of duties. -/
def inbox (q : DutyQueue) : Inbox where
  queue := q.duties.map fun d => f.command d.val
  bounded := by simpa using q.bounded
  valid := by
    intro cmd hcmd
    obtain ⟨d, -, rfl⟩ := List.mem_map.mp hcmd
    rw [f.validate_command, if_pos d.property]

/-- Offering a value is pushing its command. -/
theorem inbox_push (q : DutyQueue) (v : I32) :
    (f.inbox q).push (f.command v) = ((q.offer v).1, f.inbox (q.offer v).2) := by
  have hlen : (f.inbox q).queue.length = q.duties.length := List.length_map ..
  by_cases hv : mbValidatePwmDuty v = true
  · have hok : mbValidateCommand (f.command v) = .ok := by rw [f.validate_command, if_pos hv]
    by_cases hb : q.duties.length < mailboxCapacity
    · simp only [Inbox.push, DutyQueue.offer, hv, hb, hok, hlen, dite_true, Prod.mk.injEq, true_and]
      apply Inbox.ext
      simp [inbox]
    · simp only [Inbox.push, DutyQueue.offer, hv, hb, hok, hlen, dite_true, dite_false]
  · have hbad : mbValidateCommand (f.command v) = .badArgument := by
      rw [f.validate_command, if_neg hv]
    have hne : ¬ mbValidateCommand (f.command v) = .ok := by
      rw [hbad]
      decide
    simp only [Inbox.push, DutyQueue.offer, hv, hbad, dite_false, reduceCtorEq, Bool.false_eq_true]

end FlowSpec

/-- The system runs the flow `f` and stands where the abstract state does. -/
structure Represents (f : FlowSpec) (sys : System) (a : FlowState) : Prop where
  trace : sys.trace = a.trace
  free : ∀ i, (sys.sched.proc i).state = .free ↔ f.sensors.length < i.val
  holds : ∀ i, (sys.sched.proc i).mailbox.Holds (f.inbox (a.queue i))
  sensor : ∀ (i : Slot) s, f.sensors[i.val]? = some s →
    SensorAt f s i (sys.sched.proc i) (a.sensor i)
  actuator : ∀ i : Slot, i.val = f.sensors.length → ActuatorAt f i (sys.sched.proc i) a.actuator

/-! ### Actuator instructions -/

theorem Duty.range (d : Duty) : 0 ≤ d.val.toInt ∧ d.val.toInt ≤ 1000 := by
  have h := d.property
  simpa [mbValidatePwmDuty, inRange] using h

theorem Duty.held (d : Duty) : MiniBeam.held d.val = d.val := by
  have h := d.range
  exact held_of_range (by omega) (by omega)

namespace ActuatorAt

variable {f : FlowSpec} {i : Slot} {p q : Process} {σ σ' : ActuatorState}

/-- Only these parts of a process matter. -/
theorem congr (h : ActuatorAt f i p σ) (hprogram : q.program = p.program) (hpc : q.pc = p.pc)
    (hhalted : q.halted = p.halted) (hpid : q.pid = p.pid) (hregs : q.regs = p.regs) :
    ActuatorAt f i q σ := by
  have hint : ∀ r, q.int r = p.int r := fun r => by simp only [Process.int, Process.reg, hregs]
  refine ⟨hprogram.trans h.program, hpc.trans h.pc, hhalted.trans h.halted, hpid.trans h.pid, ?_⟩
  intro d hd
  rw [hint, hint]
  exact h.duty d hd

theorem spend (h : ActuatorAt f i p σ) : ActuatorAt f i p.spend σ := h.congr rfl rfl rfl rfl rfl

/-- The instruction the actuator stands at. -/
theorem decode_eq (h : ActuatorAt f i p σ) {instr : Instr}
    (hi : actuatorCode[σ.next]? = some instr) :
    decode p.program p.pc = (.ok instr, offset actuatorCode (σ.next + 1)) := by
  rw [h.program, h.pc, actuatorProgram_eq]
  exact decode_offset hi (actuatorCode_encodable _ (List.mem_of_getElem? hi))

/-- Going on without a duty. -/
theorem goto (h : ActuatorAt f i p σ) (hnext : q.pc = offset actuatorCode σ'.next)
    (hidle : ∀ d, σ' ≠ .driving d) (hprogram : q.program = p.program)
    (hhalted : q.halted = p.halted) (hpid : q.pid = p.pid) : ActuatorAt f i q σ' :=
  ⟨hprogram.trans h.program, hnext, hhalted.trans h.halted, hpid.trans h.pid,
    fun d hd => absurd hd (hidle d)⟩

/-- A received command stands in the registers the PWM call reads. -/
theorem received (h : ActuatorAt f i p σ) (d : Duty) :
    ActuatorAt f i ((p.setPc (offset actuatorCode 1)).loadCommand 0 1 2 3 4 (f.command d.val))
      (.driving d) := by
  refine ⟨h.program, rfl, h.halted, h.pid, ?_⟩
  intro d' hd
  obtain rfl := ActuatorState.driving.inj hd
  constructor
  · simp only [Process.loadCommand, Process.int, Process.reg_setReg]
    exact f.held_channel
  · simp only [Process.loadCommand, Process.int, Process.reg_setReg]
    exact d.held

end ActuatorAt

/-! ### Systems -/

namespace Represents

variable {f : FlowSpec} {sys sys' : System} {a a' : FlowState}

theorem congr (h : Represents f sys a) (htrace : sys'.trace = sys.trace)
    (hproc : ∀ i, sys'.sched.proc i = sys.sched.proc i) : Represents f sys' a where
  trace := htrace.trans h.trace
  free i := by rw [hproc]; exact h.free i
  holds i := by rw [hproc]; exact h.holds i
  sensor i s hs := by rw [hproc]; exact h.sensor i s hs
  actuator i hi := by rw [hproc]; exact h.actuator i hi

theorem setBudget (h : Represents f sys a) (n : ℕ) : Represents f sys (a.setBudget n) :=
  ⟨h.trace, h.free, h.holds, h.sensor, h.actuator⟩

/-- One process changes. -/
theorem update (h : Represents f sys a) {i : Slot} {q : Process} {t : Trace}
    (htrace : t = a'.trace) (hfree : q.state = .free ↔ f.sensors.length < i.val)
    (hholds : q.mailbox.Holds (f.inbox (a'.queue i)))
    (hsensor : ∀ s, f.sensors[i.val]? = some s → SensorAt f s i q (a'.sensor i))
    (hactuator : i.val = f.sensors.length → ActuatorAt f i q a'.actuator)
    (hqueues : ∀ j, j ≠ i → a'.queue j = a.queue j)
    (hsensors : ∀ j, j ≠ i → a'.sensor j = a.sensor j)
    (hother : i.val ≠ f.sensors.length → a'.actuator = a.actuator) :
    Represents f ⟨sys.sched.setProc i q, t⟩ a' where
  trace := htrace
  free j := by
    by_cases hj : j = i
    · subst hj
      rw [Scheduler.proc_setProc_self]
      exact hfree
    · rw [Scheduler.proc_setProc_ne _ _ hj]
      exact h.free j
  holds j := by
    by_cases hj : j = i
    · subst hj
      rw [Scheduler.proc_setProc_self]
      exact hholds
    · rw [Scheduler.proc_setProc_ne _ _ hj, hqueues j hj]
      exact h.holds j
  sensor j s hs := by
    by_cases hj : j = i
    · subst hj
      rw [Scheduler.proc_setProc_self]
      exact hsensor s hs
    · rw [Scheduler.proc_setProc_ne _ _ hj, hsensors j hj]
      exact h.sensor j s hs
  actuator j hj := by
    by_cases hji : j = i
    · subst hji
      rw [Scheduler.proc_setProc_self]
      exact hactuator hj
    · rw [Scheduler.proc_setProc_ne _ _ hji,
        hother fun hi => hji (Fin.ext (hj.trans hi.symm))]
      exact h.actuator j hj

/-- A sensor changes its own process and keeps its mailbox. -/
theorem sensor_update (h : Represents f sys a) {self : Slot} {s : Sensor} {q : Process}
    {σ : SensorState} (events : List Event) (hs : f.sensors[self.val]? = some s)
    (hstate : q.state ≠ .free) (hmailbox : q.mailbox = (sys.sched.proc self).mailbox)
    (hat : SensorAt f s self q σ) :
    Represents f ⟨sys.sched.setProc self q, sys.trace ++ events⟩
      ((a.setSensor self σ).emit events) := by
  have hlt : self.val < f.sensors.length := (List.getElem?_eq_some_iff.mp hs).1
  refine h.update ?_ ?_ ?_ ?_ ?_ (fun _ _ => rfl) ?_ (fun _ => rfl)
  · rw [h.trace]
    rfl
  · exact ⟨fun hf => absurd hf hstate, fun hgt => by omega⟩
  · rw [hmailbox]
    exact h.holds self
  · intro s' hs'
    rw [hs, Option.some.injEq] at hs'
    rw [← hs']
    simpa using hat
  · intro he
    omega
  · intro j hj
    simp [hj]

/-- A pid is looked up in the table as in the flow. -/
theorem lookup (h : Represents f sys a) (pid : Byte) :
    mbSchedProc sys.sched pid = .ok (f.resolve pid) := by
  unfold mbSchedProc FlowSpec.resolve
  by_cases hz : pid = 0 ∨ pid.toNat > maxProcesses
  · rw [if_pos hz, dif_neg]
    rintro ⟨hne, hle, -⟩
    rcases hz with hz | hz
    · exact hne hz
    · omega
  · obtain ⟨hne, hle⟩ := not_or.mp hz
    have hpos : pid.toNat ≠ 0 := fun h0 => hne (BitVec.eq_of_toNat_eq h0)
    have hidx : pid.toNat - 1 < maxProcesses := by omega
    have hfree := h.free ⟨pid.toNat - 1, hidx⟩
    rw [if_neg hz, dif_pos hidx]
    by_cases hk : pid.toNat ≤ f.sensors.length + 1
    · rw [if_neg (fun hf => by have := hfree.mp hf; simp only at this; omega),
        dif_pos ⟨hne, Nat.le_of_not_lt hle, hk⟩]
    · rw [if_pos (hfree.mpr (by simp only; omega)), dif_neg (fun hc => hk hc.2.2)]

end Represents

/-! ### Rounds -/

@[simp] theorem FlowState.emit_nil (a : FlowState) : a.emit [] = a := by
  simp [FlowState.emit]

/-- The slice of slot `i` stands where the abstract state does. -/
structure InSlice (f : FlowSpec) (i : Slot) (sys : System) (a : FlowState) : Prop where
  represents : Represents f sys a
  ready : (sys.sched.proc i).state = .ready
  budget : (sys.sched.proc i).reductions = a.budget

/-- The next round of the interpreter is a round of the flow. -/
def Simulated (hal : Hal) (f : FlowSpec) (self : Slot) (sys : System) (a : FlowState) : Prop :=
  ∃ ends sys' a',
    runRound hal maxReductions (sys.machine self) =
      .ok (if ends then some .ok else none, sys'.machine self) ∧
    FlowStep hal f self a ends a' ∧ Represents f sys' a' ∧ (ends = false → InSlice f self sys' a')

section Simulation

variable {hal : Hal} {f : FlowSpec} {self : Slot} {sys sys' : System} {a a' : FlowState}
  {s : Sensor}

theorem Represents.spend (h : Represents f sys a) (self : Slot) :
    Represents f ⟨sys.sched.setProc self (sys.sched.proc self).spend, sys.trace⟩ a :=
  h.update h.trace (h.free self) (h.holds self) (fun s hs => (h.sensor self s hs).spend)
    (fun ha => (h.actuator self ha).spend) (fun _ _ => rfl) (fun _ _ => rfl) (fun _ => rfl)

/-- An instruction after which the slice goes on. -/
theorem Simulated.next {b : ℕ} (hh : (sys.sched.proc self).halted = false)
    (hb : (sys.sched.proc self).reductions < maxReductions)
    (hstep : mbProcStep hal (sys.machine self) = .ok (.ok, sys'.machine self))
    (hrep : Represents f sys' a') (hready : (sys'.sched.proc self).state = .ready)
    (hred : (sys'.sched.proc self).reductions + 1 = b)
    (hflow : FlowStep hal f self a false (a'.setBudget b)) : Simulated hal f self sys a := by
  have hrep' : Represents f ⟨sys'.sched.setProc self (sys'.sched.proc self).spend, sys'.trace⟩
      (a'.setBudget b) := (hrep.spend self).setBudget b
  refine ⟨false, _, _, runRound_step hh hb hstep hready, hflow, hrep', fun _ => ⟨hrep', ?_, ?_⟩⟩
  · rw [Scheduler.proc_setProc_self]
    exact hready
  · rw [Scheduler.proc_setProc_self]
    exact hred

/-- An instruction after which the process is not ready. -/
theorem Simulated.leave (hh : (sys.sched.proc self).halted = false)
    (hb : (sys.sched.proc self).reductions < maxReductions)
    (hstep : mbProcStep hal (sys.machine self) = .ok (.ok, sys'.machine self))
    (hrep : Represents f sys' a') (hstate : (sys'.sched.proc self).state ≠ .ready)
    (hflow : FlowStep hal f self a true a') : Simulated hal f self sys a :=
  ⟨true, sys', a', runRound_leave hh hb hstep hstate, hflow, hrep, by simp⟩

/-- An instruction of a sensor on its own registers. -/
theorem Simulated.sensor {k b : ℕ} {instr : Instr} {q : Process} {σ : SensorState}
    {events : List Event} (h : InSlice f self sys a) (hs : f.sensors[self.val]? = some s)
    (hb : a.budget < maxReductions) (hk : (a.sensor self).next = k)
    (hi : (f.sensorCode s)[k]? = some instr) (hnot : ¬ instr.IsSend)
    (hrun : instr.run hal true (sys.sched.proc self).pc
      ((sys.sched.proc self).setPc (offset (f.sensorCode s) (k + 1))) sys.trace =
        .ok (.ok, q, events))
    (hq : Quiet (sys.sched.proc self) q) (hat : SensorAt f s self q σ) (hred : q.reductions + 1 = b)
    (hflow : FlowStep hal f self a false (((a.setSensor self σ).emit events).setBudget b)) :
    Simulated hal f self sys a := by
  have hp := h.represents.sensor self s hs
  have hready : q.state = .ready := hq.state.trans h.ready
  have hstep := mbProcStep_run hp.halted (hp.decode_eq hk hi) hnot hrun
  refine Simulated.next hp.halted (h.budget ▸ hb) hstep
    (h.represents.sensor_update _ hs (by rw [hready]; decide) hq.mailbox hat) ?_ ?_ hflow
  · rw [Scheduler.proc_setProc_self]
    exact hready
  · rw [Scheduler.proc_setProc_self]
    exact hred

theorem simulated_load {k : ℕ} (h : InSlice f self sys a) (hs : f.sensors[self.val]? = some s)
    (hb : a.budget < maxReductions) (hk : (a.sensor self).next = k) (hlt : k < 8) :
    Simulated hal f self sys a := by
  obtain ⟨c, hc, hi⟩ := f.sensorCode_load s hlt
  have hp := h.represents.sensor self s hs
  have hrun : (Instr.constI32 c.1 c.2).run hal true (sys.sched.proc self).pc
      ((sys.sched.proc self).setPc (offset (f.sensorCode s) (k + 1))) sys.trace =
      .ok (.ok, ((sys.sched.proc self).setPc (offset (f.sensorCode s) (k + 1))).setReg c.1
        (makeSmallint c.2), []) := rfl
  have hflow : FlowStep hal f self a false _ := .load hb hs hk hlt
  rw [← FlowState.emit_nil (FlowState.setSensor _ _ _)] at hflow
  exact Simulated.sensor h hs hb hk hi (Instr.not_isSend nofun) hrun
    ⟨rfl, rfl, rfl, rfl, rfl⟩ (hp.load hk hc) (congrArg (· + 1) h.budget) hflow

theorem request_pwmSetDuty {channel duty : I32} (hc : mbValidatePwmChannel channel = true)
    (hd : mbValidatePwmDuty duty = true) :
    bifRequest 2 [channel, duty] = .ok
      (.pwmSetDuty (channel.setWidth 8) (duty.setWidth 16), HalReply.rc) := by
  show checked (mbValidatePwmChannel channel && mbValidatePwmDuty duty) _ _ = _
  rw [hc, hd]
  rfl

theorem simulated_read (h : InSlice f self sys a) (hs : f.sensors[self.val]? = some s)
    (hb : a.budget < maxReductions) (hk : (a.sensor self).next = 8) :
    Simulated hal f self sys a := by
  have hp := h.represents.sensor self s hs
  have hgo := hp.goto (k := 9) (by omega) (by decide)
  have hrun := hp.run_read hal sys.trace hk
  exact Simulated.sensor h hs hb hk rfl (Instr.not_isSend nofun) hrun
    ⟨rfl, rfl, rfl, rfl, rfl⟩ ((hgo.setValue _).fail .ok) (congrArg (· + 1) h.budget)
    (.read hb hs hk (congrArg (hal · s.call) h.represents.trace))

theorem simulated_clock (h : InSlice f self sys a) (hs : f.sensors[self.val]? = some s)
    (hb : a.budget < maxReductions) (hk : (a.sensor self).next = 9) :
    Simulated hal f self sys a := by
  have hp := h.represents.sensor self s hs
  have hgo := hp.goto (k := 10) (by omega) (by decide)
  have hrun := hp.run_clock hal sys.trace
  exact Simulated.sensor h hs hb hk rfl (Instr.not_isSend nofun) hrun
    ⟨rfl, rfl, rfl, rfl, rfl⟩ ((hgo.setClock _).fail .ok) (congrArg (· + 1) h.budget)
    (.clock hb hs hk (congrArg (hal · .monotonicMs) h.represents.trace))

theorem simulated_rest (h : InSlice f self sys a) (hs : f.sensors[self.val]? = some s)
    (hb : a.budget < maxReductions) (hk : (a.sensor self).next = 11) :
    Simulated hal f self sys a := by
  have hp := h.represents.sensor self s hs
  have hgo := hp.goto (k := 12) (by omega) (by decide)
  have hi : (f.sensorCode s)[11]? = some s.rest := rfl
  by_cases hpoll : s.pollMs = 0
  · have hrest : s.rest = .yield := if_pos hpoll
    rw [hrest] at hi
    have hflow : FlowStep hal f self a false _ := .yield hb hs hk hpoll
    rw [← FlowState.emit_nil (FlowState.setSensor _ _ _)] at hflow
    exact Simulated.sensor h hs hb hk hi (Instr.not_isSend nofun) rfl
      ⟨rfl, rfl, rfl, rfl, rfl⟩ (hgo.congr rfl rfl rfl rfl rfl) rfl hflow
  · have hrest : s.rest = .sleepMs 6 := if_neg hpoll
    rw [hrest] at hi
    have hrun := hp.run_sleep hal sys.trace
    refine Simulated.leave hp.halted (h.budget ▸ hb)
      (mbProcStep_run hp.halted (hp.decode_eq hk hi)
        (Instr.not_isSend nofun) hrun)
      (h.represents.sensor_update _ hs (by simp) rfl (hgo.congr rfl rfl rfl rfl rfl)) ?_
      (.sleep hb hs hk hpoll (congrArg (hal · .monotonicMs) h.represents.trace))
    rw [Scheduler.proc_setProc_self]
    simp

end Simulation

/-! ### Jumps and sends -/

section Simulation

variable {hal : Hal} {f : FlowSpec} {self : Slot} {sys sys' : System} {a a' : FlowState}
  {s : Sensor}

theorem simulated_jump (h : InSlice f self sys a) (hs : f.sensors[self.val]? = some s)
    (hb : a.budget < maxReductions) (hk : (a.sensor self).next = 12) :
    Simulated hal f self sys a := by
  have hp := h.represents.sensor self s hs
  have hrun := hp.run_jump hal sys.trace
  have hflow : FlowStep hal f self a false _ := .jump hb hs hk
  rw [← FlowState.emit_nil (FlowState.setSensor _ _ _)] at hflow
  exact Simulated.sensor h hs hb hk rfl (Instr.not_isSend nofun) hrun
    ⟨rfl, rfl, rfl, rfl, rfl⟩ (hp.goto (by omega) (by decide)) (congrArg (· + 1) h.budget) hflow

/-- Delivering a sensor's command is offering its value to the queue of the target. -/
theorem Represents.deliver (h : Represents f sys a) {i : Slot} (hi : i.val ≤ f.sensors.length)
    (v : I32) {rc : Status} {q : DutyQueue} (ho : (a.queue i).offer v = (rc, q)) :
    ∃ s', MiniBeam.deliver sys.sched i (f.command v) = .ok (rc, s') ∧
      Represents f ⟨s', sys.trace ++ [.push i.pid (f.command v) rc]⟩
        ((a.setQueue i q).emit [.push i.pid (f.command v) rc]) ∧
      ∀ j, (s'.proc j).reductions = (sys.sched.proc j).reductions ∧
        ((sys.sched.proc j).state = .ready → (s'.proc j).state = .ready) := by
  obtain ⟨mb, hmb, hholds, -⟩ := Mailbox.push_refines (h.holds i) (f.command v)
  rw [f.inbox_push, ho] at hmb hholds
  have hd : MiniBeam.deliver sys.sched i (f.command v) = .ok (rc, sys.sched.setProc i
      (if rc = .ok ∧ (sys.sched.proc i).state = .waiting then
        { sys.sched.proc i with mailbox := mb, state := .ready }
      else { sys.sched.proc i with mailbox := mb })) := by
    simp only [MiniBeam.deliver, mbVmMailboxPushProc, hmb, ok_bind, pure_ok]
  refine ⟨_, hd, ?_, ?_⟩
  · have hnotfree : (sys.sched.proc i).state ≠ .free := fun hf => by
      have := (h.free i).mp hf
      omega
    refine h.update ?_ ?_ ?_ ?_ ?_ ?_ (fun _ _ => rfl) (fun _ => rfl)
    · rw [h.trace]
      rfl
    · split
      · exact ⟨fun hf => by simp at hf, fun hgt => by omega⟩
      · exact h.free i
    · simp only [FlowState.setQueue, FlowState.emit, Function.update_self]
      split <;> exact hholds
    · intro s hs
      split <;> exact (h.sensor i s hs).congr rfl rfl rfl rfl rfl
    · intro ha
      split <;> exact (h.actuator i ha).congr rfl rfl rfl rfl rfl
    · intro j hj
      simp [hj]
  · intro j
    by_cases hj : j = i
    · subst hj
      rw [Scheduler.proc_setProc_self]
      split
      · exact ⟨rfl, fun _ => rfl⟩
      · exact ⟨rfl, fun hr => hr⟩
    · rw [Scheduler.proc_setProc_ne _ _ hj]
      exact ⟨rfl, fun hr => hr⟩

end Simulation

theorem FlowSpec.resolve_some {f : FlowSpec} {pid : Byte} {i : Slot} (h : f.resolve pid = some i) :
    pid.toNat = i.val + 1 ∧ i.val ≤ f.sensors.length := by
  unfold FlowSpec.resolve at h
  split at h
  · rename_i hc
    have hpos : pid.toNat ≠ 0 := fun hz => hc.1 (BitVec.eq_of_toNat_eq hz)
    obtain rfl := Option.some.inj h
    exact ⟨by simp only; omega, by simp only; omega⟩
  · cases h

section Send

variable {hal : Hal} {f : FlowSpec} {self : Slot} {sys : System} {a : FlowState} {s : Sensor}

/-- The result code of a `SEND` in the register of the target pid. -/
theorem Represents.answer (σ : SensorState) (h : Represents f sys a)
    (hs : f.sensors[self.val]? = some s) (hσ : a.sensor self = σ)
    (hready : (sys.sched.proc self).state = .ready) (rc : Status) :
    Represents f ⟨MiniBeam.answer sys.sched self 3 rc, sys.trace⟩
      (a.setSensor self { σ with target := held rc.code }) := by
  have hat := (h.sensor self s hs).setTarget rc.code
  have hrep := h.sensor_update [] (q := (sys.sched.proc self).setReg 3
    (makeSmallint rc.code)) hs (by show (sys.sched.proc self).state ≠ .free; rw [hready]; decide)
    rfl hat
  rw [List.append_nil, FlowState.emit_nil, hσ] at hrep
  exact hrep

theorem simulated_send (h : InSlice f self sys a) (hs : f.sensors[self.val]? = some s)
    (hb : a.budget < maxReductions) (hk : (a.sensor self).next = 10) :
    Simulated hal f self sys a := by
  have hp := h.represents.sensor self s hs
  have hgo := hp.goto (k := 11) (by omega) (by decide)
  -- the pc is past the instruction when the command is sent
  have hrep₀ := h.represents.sensor_update []
    (q := (sys.sched.proc self).setPc (offset (f.sensorCode s) 11)) hs
    (by show (sys.sched.proc self).state ≠ .free; rw [h.ready]; decide) rfl hgo
  rw [List.append_nil, FlowState.emit_nil] at hrep₀
  have hself : (sys.sched.setProc self ((sys.sched.proc self).setPc
      (offset (f.sensorCode s) 11))).proc self =
      (sys.sched.proc self).setPc (offset (f.sensorCode s) 11) :=
    Scheduler.proc_setProc_self _ _ _
  have hlookup := hrep₀.lookup ((a.sensor self).target.setWidth 8)
  have hdecode := hp.decode_eq hk (show (f.sensorCode s)[10]? = some (.send 3 4 5 7 8 8) from rfl)
  have hcommand := sensor_command hgo (by show 8 ≤ 11; decide)
  cases hr : f.resolve ((a.sensor self).target.setWidth 8) with
  | none =>
      have hsend : sendFrom (sys.sched.setProc self ((sys.sched.proc self).setPc
          (offset (f.sensorCode s) 11))) self 3 4 5 7 8 8 = .ok (answer (sys.sched.setProc self
            ((sys.sched.proc self).setPc (offset (f.sensorCode s) 11))) self 3 .badPid, []) := by
        rw [hr] at hlookup
        simp only [sendFrom, hself, hgo.target, hlookup, ok_bind, pure_ok]
      have hrep := hrep₀.answer _ hs rfl (by rw [hself]; exact h.ready) .badPid
      have hproc : ((answer (sys.sched.setProc self ((sys.sched.proc self).setPc
          (offset (f.sensorCode s) 11))) self 3 .badPid).proc self) =
          ((sys.sched.proc self).setPc (offset (f.sensorCode s) 11)).setReg 3
            (makeSmallint Status.badPid.code) := by
        rw [answer, Scheduler.proc_setProc_self, hself]
      have hstep := mbProcStep_sent hal hp.halted hdecode hsend
      rw [List.append_nil] at hstep
      refine Simulated.next hp.halted (h.budget ▸ hb) hstep hrep ?_ (b := a.budget + 1) ?_ ?_
      · rw [hproc]
        exact h.ready
      · rw [hproc]
        exact congrArg (· + 1) h.budget
      · have hflow : FlowStep hal f self a false _ := .lost hb hs hk hr
        simpa [FlowState.setSensor, FlowState.spend, FlowState.setBudget] using hflow
  | some i =>
      obtain ⟨-, hi⟩ := FlowSpec.resolve_some hr
      obtain ⟨rc, q, ho⟩ : ∃ rc q, (a.queue i).offer (a.sensor self).value = (rc, q) := ⟨_, _, rfl⟩
      obtain ⟨s', hdeliver, hrep₁, hkeep⟩ := hrep₀.deliver hi (a.sensor self).value ho
      have hpid : ((sys.sched.setProc self ((sys.sched.proc self).setPc
          (offset (f.sensorCode s) 11))).proc i).pid = i.pid := by
        rcases Nat.lt_or_eq_of_le hi with hlt | heq
        · exact (hrep₀.sensor i _ (List.getElem?_eq_getElem hlt)).pid
        · exact (hrep₀.actuator i heq).pid
      have hsend : sendFrom (sys.sched.setProc self ((sys.sched.proc self).setPc
          (offset (f.sensorCode s) 11))) self 3 4 5 7 8 8 = .ok (answer s' self 3 rc,
            [.push i.pid (f.command (a.sensor self).value) rc]) := by
        rw [hr] at hlookup
        simp only [sendFrom, hself, hgo.target, hlookup, hcommand, hdeliver, hpid, ok_bind, pure_ok]
      have hready : (s'.proc self).state = .ready := (hkeep self).2 (by rw [hself]; exact h.ready)
      have hrep := hrep₁.answer { a.sensor self with next := 11 } hs
        (by simp) hready rc
      have hproc : (answer s' self 3 rc).proc self =
          (s'.proc self).setReg 3 (makeSmallint rc.code) := by
        rw [answer, Scheduler.proc_setProc_self]
      refine Simulated.next hp.halted (h.budget ▸ hb) (mbProcStep_sent hal hp.halted hdecode hsend)
        hrep ?_ (b := a.budget + 1) ?_ ?_
      · rw [hproc]
        exact hready
      · rw [hproc]
        show (s'.proc self).reductions + 1 = _
        rw [(hkeep self).1, hself]
        exact congrArg (· + 1) h.budget
      · have hflow : FlowStep hal f self a false _ := .send hb hs hk hr ho
        simpa [FlowState.setSensor, FlowState.setQueue, FlowState.emit, FlowState.spend,
          FlowState.setBudget] using hflow

end Send

/-! ### Rounds of the actuator -/

section Actuate

variable {hal : Hal} {f : FlowSpec} {self : Slot} {sys : System} {a : FlowState}

theorem FlowSpec.no_sensor {f : FlowSpec} {i : Slot} (hi : i.val = f.sensors.length) {s : Sensor} :
    f.sensors[i.val]? ≠ some s := by
  rw [hi, List.getElem?_eq_none (le_refl _)]
  exact nofun

/-- The actuator changes its own process. -/
theorem Represents.actuator_update (h : Represents f sys a) {q : Process} {σ : ActuatorState}
    {d : DutyQueue} (events : List Event) (hself : self.val = f.sensors.length)
    (hstate : q.state ≠ .free) (hmailbox : q.mailbox.Holds (f.inbox d))
    (hat : ActuatorAt f self q σ) :
    Represents f ⟨sys.sched.setProc self q, sys.trace ++ events⟩
      (((a.setQueue self d).setActuator σ).emit events) := by
  refine h.update ?_ ?_ ?_ ?_ (fun _ => hat) ?_ (fun _ _ => rfl) (fun hne => absurd hself hne)
  · rw [h.trace]
    rfl
  · exact ⟨fun hf => absurd hf hstate, fun hgt => by omega⟩
  · simpa using hmailbox
  · intro s hs
    exact absurd hs (FlowSpec.no_sensor hself)
  · intro j hj
    simp [hj]

/-- An instruction of the actuator after which the slice goes on. -/
theorem Simulated.actuator {instr : Instr} {q : Process} {events : List Event}
    (σ : ActuatorState) (d : DutyQueue) (h : InSlice f self sys a)
    (hself : self.val = f.sensors.length)
    (hb : a.budget < maxReductions) (hi : actuatorCode[a.actuator.next]? = some instr)
    (hnot : ¬ instr.IsSend)
    (hrun : instr.run hal true (sys.sched.proc self).pc
      ((sys.sched.proc self).setPc (offset actuatorCode (a.actuator.next + 1))) sys.trace =
        .ok (.ok, q, events))
    (hstate : q.state = (sys.sched.proc self).state) (hmailbox : q.mailbox.Holds (f.inbox d))
    (hat : ActuatorAt f self q σ) (hred : q.reductions = (sys.sched.proc self).reductions)
    (hflow : FlowStep hal f self a false
      (((a.setQueue self d).setActuator σ).emit events).spend) : Simulated hal f self sys a := by
  have hp := h.represents.actuator self hself
  have hready : q.state = .ready := hstate.trans h.ready
  have hstep := mbProcStep_run hp.halted (hp.decode_eq hi) hnot hrun
  refine Simulated.next hp.halted (h.budget ▸ hb) hstep
    (h.represents.actuator_update _ hself (by rw [hready]; decide) hmailbox hat) ?_ ?_ hflow
  · rw [Scheduler.proc_setProc_self]
    exact hready
  · rw [Scheduler.proc_setProc_self, hred, h.budget]
    rfl

theorem FlowSpec.inbox_queue (f : FlowSpec) (q : DutyQueue) :
    (f.inbox q).queue = q.duties.map fun d => f.command d.val := rfl

/-- Loading a command changes nothing but the registers. -/
theorem loadCommand_eq (p : Process) (t a b c d : Reg) (cmd : Command) :
    p.loadCommand t a b c d cmd = { p with
      regs := ((((p.regs.set t (makeSmallint cmd.type) t.isLt).set a (makeSmallint cmd.a)
        a.isLt).set b (makeSmallint cmd.b) b.isLt).set c (makeSmallint cmd.c) c.isLt).set d
          (makeSmallint cmd.d) d.isLt } := by
  simp only [Process.loadCommand, Process.setReg]

theorem FlowState.setQueue_self (a : FlowState) (i : Slot) : a.setQueue i (a.queue i) = a := by
  simp [FlowState.setQueue]

theorem simulated_receiving (h : InSlice f self sys a) (hself : self.val = f.sensors.length)
    (hb : a.budget < maxReductions) (hat : a.actuator = .receiving) :
    Simulated hal f self sys a := by
  have hp := h.represents.actuator self hself
  have hi : actuatorCode[a.actuator.next]? = some (.recvCmd 0 1 2 3 4) := by rw [hat]; rfl
  have hpid := hp.pid
  rw [hat] at hp
  cases hq : (a.queue self).duties with
  | nil =>
      have hpop := Mailbox.pop_refines (h.represents.holds self)
      have hnone : (f.inbox (a.queue self)).pop = none := by
        rw [Inbox.pop_none_iff, FlowSpec.inbox_queue, hq]
        rfl
      rw [hnone] at hpop
      have hrun : (Instr.recvCmd 0 1 2 3 4).run hal true (sys.sched.proc self).pc
          ((sys.sched.proc self).setPc (offset actuatorCode (a.actuator.next + 1))) sys.trace =
          .ok (.ok, { (sys.sched.proc self) with state := .waiting }, []) := by
        simp only [Instr.run, Process.setPc_mailbox, hpop, ok_bind, if_true, pure_ok]
        rfl
      have hstep := mbProcStep_run (h.represents.actuator self hself).halted
        ((h.represents.actuator self hself).decode_eq hi)
        (Instr.not_isSend (by decide)) hrun
      have hrep := h.represents.actuator_update [] (d := a.queue self)
        (q := { (sys.sched.proc self) with state := .waiting }) hself (by simp)
        (h.represents.holds self) (hp.congr rfl rfl rfl rfl rfl)
      rw [FlowState.emit_nil, FlowState.setQueue_self] at hrep
      have hsame : a.setActuator .receiving = a := by rw [← hat]; rfl
      rw [hsame] at hrep
      refine Simulated.leave hp.halted (h.budget ▸ hb) hstep hrep ?_ (.block hb hself hat hq)
      rw [Scheduler.proc_setProc_self]
      simp
  | cons duty rest =>
      obtain ⟨q, hrest⟩ : ∃ q : DutyQueue, q.duties = rest :=
        ⟨⟨rest, by have := (a.queue self).bounded; rw [hq, List.length_cons] at this; omega⟩, rfl⟩
      have hpop := Mailbox.pop_refines (h.represents.holds self)
      have hqueue : (f.inbox (a.queue self)).queue = f.command duty.val :: (f.inbox q).queue := by
        rw [FlowSpec.inbox_queue, hq, FlowSpec.inbox_queue, hrest]
        rfl
      cases hpopped : (f.inbox (a.queue self)).pop with
      | none =>
          rw [Inbox.pop_none_iff, hqueue] at hpopped
          cases hpopped
      | some popped =>
          obtain ⟨cmd, r⟩ := popped
          rw [hpopped] at hpop
          obtain ⟨mb, hmb, hholds⟩ := hpop
          have hcons := Inbox.pop_queue hpopped
          rw [hqueue] at hcons
          obtain ⟨rfl, hr⟩ := List.cons.inj hcons
          obtain rfl : f.inbox q = r := Inbox.ext hr
          have hvalid : mbValidateCommand (f.command duty.val) = .ok := by
            rw [f.validate_command, if_pos duty.property]
          have hrun : (Instr.recvCmd 0 1 2 3 4).run hal true (sys.sched.proc self).pc
              ((sys.sched.proc self).setPc (offset actuatorCode (a.actuator.next + 1)))
              sys.trace = .ok (.ok, ((((sys.sched.proc self).setPc
                (offset actuatorCode (a.actuator.next + 1))).setMailbox mb).loadCommand 0 1 2 3 4
                (f.command duty.val)).fail .ok, [.pop self.pid (f.command duty.val)]) := by
            simp only [Instr.run, Process.setPc_mailbox, hmb, ok_bind, hvalid, if_true, pure_ok,
              Process.setPc_pid, hpid]
          have hnext : a.actuator.next + 1 = 1 := by rw [hat]; rfl
          have hreceived : ActuatorAt f self (((((sys.sched.proc self).setPc
              (offset actuatorCode (a.actuator.next + 1))).setMailbox mb).loadCommand 0 1 2 3 4
              (f.command duty.val)).fail .ok) (.driving duty) := by
            have hreceived := hp.received duty
            rw [loadCommand_eq] at hreceived ⊢
            rw [hnext]
            exact hreceived.congr rfl rfl rfl rfl rfl
          rw [loadCommand_eq] at hrun hreceived
          exact Simulated.actuator _ _ h hself hb hi (Instr.not_isSend (by decide))
            hrun rfl hholds hreceived rfl (.receive hb hself hat (by rw [hq, hrest]))

theorem simulated_driving {duty : Duty} (h : InSlice f self sys a)
    (hself : self.val = f.sensors.length) (hb : a.budget < maxReductions)
    (hat : a.actuator = .driving duty) : Simulated hal f self sys a := by
  have hp := h.represents.actuator self hself
  have hi : actuatorCode[a.actuator.next]? = some (.callBif 2 [1, 2] 5) := by rw [hat]; rfl
  have hpid := hp.pid
  obtain ⟨h1, h2⟩ := hp.duty duty hat
  have hreq := request_pwmSetDuty f.channel_valid duty.property
  rw [setWidth_ofInt] at hreq
  have hdst : (5 : Byte).toNat < regCount := by decide
  have hcall : bifRequest 2 ([1, 2].map ((sys.sched.proc self).setPc
      (offset actuatorCode (a.actuator.next + 1))).int) = .ok
        (.pwmSetDuty (BitVec.ofInt 8 f.channel) (duty.val.setWidth 16), HalReply.rc) := by
    rw [← hreq, ← h1, ← h2]
    rfl
  have hrun : (Instr.callBif 2 [1, 2] 5).run hal true (sys.sched.proc self).pc
      ((sys.sched.proc self).setPc (offset actuatorCode (a.actuator.next + 1))) sys.trace =
      .ok (.ok, (((sys.sched.proc self).setPc (offset actuatorCode (a.actuator.next + 1))).setReg 5
        (makeSmallint (hal a.trace (.pwmSetDuty (BitVec.ofInt 8 f.channel)
          (duty.val.setWidth 16))).rc)).fail .ok,
        [.hal self.pid (.pwmSetDuty (BitVec.ofInt 8 f.channel) (duty.val.setWidth 16))
          (hal a.trace (.pwmSetDuty (BitVec.ofInt 8 f.channel) (duty.val.setWidth 16)))]) := by
    simp only [Instr.run, dif_pos hdst, hcall, pure_ok, Process.setPc_pid, hpid,
      h.represents.trace]
    rfl
  have hnext : a.actuator.next + 1 = 2 := by rw [hat]; rfl
  refine Simulated.actuator .looping (a.queue self) h hself hb hi
    (Instr.not_isSend (by decide)) hrun rfl (h.represents.holds self)
    (hp.goto ?_ ?_ rfl rfl rfl) rfl ?_
  · rw [hnext]
    rfl
  · intro duty hdriving
    cases hdriving
  · rw [FlowState.setQueue_self]
    exact .drive hb hself hat rfl

theorem simulated_looping (h : InSlice f self sys a) (hself : self.val = f.sensors.length)
    (hb : a.budget < maxReductions) (hat : a.actuator = .looping) :
    Simulated hal f self sys a := by
  have hp := h.represents.actuator self hself
  have hi : actuatorCode[a.actuator.next]? = some (.jmp (BitVec.ofInt 32 (-17))) := by
    rw [hat]
    rfl
  have hjump : jumpTo ((sys.sched.proc self).setPc (offset actuatorCode (a.actuator.next + 1)))
      (BitVec.ofInt 32 (-17)) = (.ok, (sys.sched.proc self).setPc 0) := by
    refine jumpTo_ok (by decide) ?_ (Nat.zero_le _)
    rw [Process.setPc_pc, hat]
    decide
  have hrun : (Instr.jmp (BitVec.ofInt 32 (-17))).run hal true (sys.sched.proc self).pc
      ((sys.sched.proc self).setPc (offset actuatorCode (a.actuator.next + 1))) sys.trace =
      .ok (.ok, (sys.sched.proc self).setPc 0, []) := by
    simp only [Instr.run, hjump, pure_ok]
  refine Simulated.actuator .receiving (a.queue self) h hself hb hi
    (Instr.not_isSend (by decide)) hrun rfl (h.represents.holds self)
    (hp.goto rfl ?_ rfl rfl rfl) rfl ?_
  · intro duty hdriving
    cases hdriving
  · rw [FlowState.setQueue_self, FlowState.emit_nil]
    exact .loop hb hself hat

end Actuate

/-- Every round of a slice of a deployed flow is a round of the flow. -/
theorem InSlice.simulated {f : FlowSpec} {self : Slot} {sys : System} {a : FlowState}
    (hal : Hal) (h : InSlice f self sys a) : Simulated hal f self sys a := by
  by_cases hb : a.budget < maxReductions
  · have hnotfree : ¬ f.sensors.length < self.val := fun hlt => by
      have hfree := (h.represents.free self).mpr hlt
      rw [h.ready] at hfree
      cases hfree
    rcases Nat.lt_or_eq_of_le (Nat.le_of_not_lt hnotfree) with hlt | heq
    · have hs := List.getElem?_eq_getElem hlt
      have hnext := (h.represents.sensor self _ hs).next_lt
      by_cases hload : (a.sensor self).next < 8
      · exact simulated_load h hs hb rfl hload
      · obtain hk | hk | hk | hk | hk : (a.sensor self).next = 8 ∨ (a.sensor self).next = 9 ∨
            (a.sensor self).next = 10 ∨ (a.sensor self).next = 11 ∨ (a.sensor self).next = 12 := by
          omega
        · exact simulated_read h hs hb hk
        · exact simulated_clock h hs hb hk
        · exact simulated_send h hs hb hk
        · exact simulated_rest h hs hb hk
        · exact simulated_jump h hs hb hk
    · cases hat : a.actuator with
      | receiving => exact simulated_receiving h heq hb hat
      | driving duty => exact simulated_driving h heq hb hat
      | looping => exact simulated_looping h heq hb hat
  · have hspent := Nat.le_of_not_lt hb
    exact ⟨true, sys, a, runRound_spent (h.budget ▸ hspent), .spent hspent, h.represents, by simp⟩

end MiniBeam
