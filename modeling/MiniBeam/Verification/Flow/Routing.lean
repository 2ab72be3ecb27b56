import MiniBeam.Verification.Flow.Sensor

/-! Where the programs of a flow send: the channels of their commands in every run of the
scheduler, against the entries of the flow map. -/

namespace MiniBeam

open ErlTerm

/-- In some run of the scheduler a process with this program is about to send this command. -/
def Sends (program : List Byte) (cmd : Command) : Prop :=
  ∃ (hal : Hal) (self : Slot) (sys : System) (rPid rType rA rB rC rD : Reg) (pc : ℕ),
    Dispatched hal self sys ∧ (sys.sched.proc self).program = program ∧
    decode (sys.sched.proc self).program (sys.sched.proc self).pc =
      (.ok (.send rPid rType rA rB rC rD), pc) ∧
    (sys.sched.proc self).command rType rA rB rC rD = cmd

/-- The program sends duty commands to this PWM channel. -/
def SendsDutyTo (program : List Byte) (ch : ℤ) : Prop :=
  ∃ cmd, Sends program cmd ∧ cmd.type = CommandType.pwmSetDuty.code ∧ cmd.a.toInt = ch

/-- The flow entry takes what this sensor reads to this channel. -/
def Routes (sensor entry : ErlTerm) (ch : ℤ) : Prop :=
  entry.key "from" = sensor.key "addr" ∧ entry.key "to" = some (pwm ch)

/-! ### One instruction of a sensor -/

section Step

variable {hal : Hal} {f : FlowSpec} {s : Sensor} {self i : Slot} {p : Process} {σ : SensorState}
  {sys sys' : System}

/-- The instructions of a sensor but its send, in any environment. -/
theorem SensorAt.run (h : SensorAt f s i p σ) {k : ℕ} (hk : σ.next = k) (hne : k ≠ 10)
    (hal : Hal) (t : Trace) : ∃ instr q events σ', (f.sensorCode s)[k]? = some instr ∧
      ¬ instr.IsSend ∧
      instr.run hal true p.pc (p.setPc (offset (f.sensorCode s) (k + 1))) t =
        .ok (.ok, q, events) ∧ SensorAt f s i q σ' ∧
      (k < 10 → σ'.next = k + 1 ∧ q.state = p.state ∧ q.reductions = p.reductions) := by
  have hlt : k < 13 := hk ▸ h.next_lt
  by_cases hload : k < 8
  · obtain ⟨c, hc, hi⟩ := f.sensorCode_load s hload
    exact ⟨_, _, [], _, hi, Instr.not_isSend nofun, rfl, h.load hk hc, fun _ => ⟨rfl, rfl, rfl⟩⟩
  · have hgo := h.goto (k := k + 1)
    obtain rfl | rfl | rfl | rfl : k = 8 ∨ k = 9 ∨ k = 11 ∨ k = 12 := by omega
    · exact ⟨_, _, _, _, rfl, Instr.not_isSend nofun, h.run_read hal t hk,
        ((hgo (by omega) (by decide)).setValue _).fail .ok, fun _ => ⟨rfl, rfl, rfl⟩⟩
    · exact ⟨_, _, _, _, rfl, Instr.not_isSend nofun, h.run_clock hal t,
        ((hgo (by omega) (by decide)).setClock _).fail .ok, fun _ => ⟨rfl, rfl, rfl⟩⟩
    · have hi : (f.sensorCode s)[11]? = some s.rest := rfl
      have hnext := hgo (by omega) (by decide)
      by_cases hpoll : s.pollMs = 0
      · rw [show s.rest = .yield from if_pos hpoll] at hi
        exact ⟨_, _, [], _, hi, Instr.not_isSend nofun, rfl,
          hnext.congr rfl rfl rfl rfl rfl, fun hlt => absurd hlt (by decide)⟩
      · rw [show s.rest = .sleepMs 6 from if_neg hpoll] at hi
        exact ⟨_, _, _, _, hi, Instr.not_isSend nofun, h.run_sleep hal t,
          hnext.congr rfl rfl rfl rfl rfl, fun hlt => absurd hlt (by decide)⟩
    · exact ⟨_, _, _, _, rfl, Instr.not_isSend nofun, h.run_jump hal t,
        h.goto (k := 8) (by omega) (by decide), fun hlt => absurd hlt (by decide)⟩

/-- A sensor is a sensor after any instruction of its own. -/
theorem SensorAt.mbProcStep (h : SensorAt f s self (sys.sched.proc self) σ) {rc : Status}
    (hstep : MiniBeam.mbProcStep hal (sys.machine self) = .ok (rc, sys'.machine self)) :
    ∃ σ', SensorAt f s self (sys'.sched.proc self) σ' := by
  by_cases hk : σ.next = 10
  · have hd := h.decode_eq hk (show (f.sensorCode s)[10]? = some (.send 3 4 5 7 8 8) from rfl)
    have hp : (sys.machine self).proc = sys.sched.proc self := rfl
    rw [mbProcStep_eq, hp, if_neg (by simp [h.halted]), hd] at hstep
    obtain ⟨⟨after, events⟩, hsend, hend⟩ := bind_eq_ok.mp hstep
    obtain ⟨mb, state, rc', hself⟩ := sendFrom_self hsend
    have hafter : after.proc self = sys'.sched.proc self :=
      congrArg Machine.proc (Prod.mk.inj (Except.ok.inj hend)).2
    have hgo := h.goto (k := 11) (by omega) (by decide)
    have hsent : SensorAt f s self { (sys.sched.proc self).setPc (offset (f.sensorCode s) 11) with
        mailbox := mb, state := state } { σ with next := 11 } := hgo.congr rfl rfl rfl rfl rfl
    rw [← hafter, hself, Scheduler.proc_setProc_self]
    exact ⟨_, hsent.setTarget (Status.code rc')⟩
  · obtain ⟨instr, q, events, σ', hi, hnot, hrun, hat, -⟩ := h.run rfl hk hal sys.trace
    have hrun' := mbProcStep_run h.halted (h.decode_eq rfl hi) hnot hrun
    rw [hstep, Except.ok.injEq, Prod.mk.injEq, System.machine_inj] at hrun'
    rw [hrun'.2, Scheduler.proc_setProc_self]
    exact ⟨σ', hat⟩

end Step

/-! ### Every run -/

/-- An entry with the program of the sensor runs it from its start. -/
def Senses (f : FlowSpec) (s : Sensor) (i : Slot) (p : Process) : Prop :=
  p.state ≠ .free → p.program = f.sensorProgram s → ∃ σ, SensorAt f s i p σ

/-- Only these parts of an entry matter. -/
theorem Senses.congr {f : FlowSpec} {s : Sensor} {i : Slot} {p : Process} (h : Senses f s i p)
    {mb : Mailbox} {state : ProcState} {wakeup : BitVec 32} {n : ℕ}
    (hfree : p.state = .free → state = .free) :
    Senses f s i
      { p with mailbox := mb, state := state, sleepUntilMs := wakeup, reductions := n } := by
  intro hocc hp
  obtain ⟨σ, hσ⟩ := h (fun hf => hocc (hfree hf)) hp
  exact ⟨σ, hσ.congr rfl rfl rfl rfl rfl⟩

theorem senses_invariant (hal : Hal) (f : FlowSpec) (s : Sensor) :
    StepInvariant hal fun sys => ∀ i, Senses f s i (sys.sched.proc i) where
  init i hocc := absurd (by rw [proc_init]; rfl) hocc
  spawn sys program h := by
    rcases mbSchedSpawn_cases sys.sched program with hs | ⟨slot, -, hs⟩
    · rwa [hs]
    · intro i
      rw [hs]
      show Senses f s i ((sys.sched.setProc slot (mbProcInit slot.pid program)).proc i)
      rw [Scheduler.proc_setProc]
      split
      · rename_i hi
        subst hi
        rintro - (hp : program = f.sensorProgram s)
        subst hp
        exact ⟨_, .fresh f s i⟩
      · exact h i
  wake sys h i := by
    rw [proc_wakeSleepers]
    rcases wake_cases (hal sys.trace .monotonicMs).ms (sys.sched.proc i) with hw | ⟨hs, hw⟩
    · rw [hw]
      exact h i
    · rw [hw]
      exact (h i).congr fun hf => absurd (hs.symm.trans hf) (by decide)
  select sys current _ h := h
  push sys sys' hpush h := by
    obtain ⟨hocc, hd⟩ := hpush
    obtain ⟨mb, state, -, -, rfl⟩ := deliver_eq hd
    intro i
    dsimp only
    rw [Scheduler.proc_setProc]
    split
    · rename_i hi
      subst hi
      exact (h i).congr fun hf => absurd hf hocc
    · exact h i
  budget sys self n hready h i := by
    dsimp only
    rw [Scheduler.proc_setProc]
    split
    · rename_i hi
      subst hi
      exact (h i).congr id
    · exact h i
  step self sys rc sys' hready hstep h i := by
    obtain ⟨sys₁, hm, hmoves⟩ := mbProcStep_moves hready hstep
    obtain rfl := System.machine_inj.mp hm
    by_cases hi : i = self
    · subst hi
      intro hocc hp
      obtain ⟨σ, hσ⟩ := h i (by rw [hready]; decide) ((hmoves.program i).symm.trans hp)
      exact hσ.mbProcStep hstep
    · obtain ⟨mb, state, hproc, hfree⟩ := hmoves.other hi
      rw [hproc]
      exact (h i).congr hfree

/-- Every command the program of a sensor sends is a duty command to the channel of the flow. -/
theorem Sends.channel {f : FlowSpec} {s : Sensor} {cmd : Command}
    (h : Sends (f.sensorProgram s) cmd) : cmd.a.toInt = f.channel := by
  obtain ⟨hal, self, sys, rPid, rType, rA, rB, rC, rD, pc, hd, hp, hdecode, rfl⟩ := h
  obtain ⟨σ, hσ⟩ := (senses_invariant hal f s).dispatched hd self (by rw [hd.ready]; decide) hp
  have hnext := hσ.sends hdecode
  have hsend := hσ.instr_eq hdecode
  rw [hnext] at hsend
  obtain ⟨rfl, rfl, rfl, rfl, rfl, rfl⟩ := Instr.send.inj (Option.some.inj hsend)
  rw [sensor_command hσ (by omega)]
  have hrange := f.channel_range
  exact FlowSpec.ofInt_toInt (by omega) (by omega)

/-! ### A run that sends -/

section Lone

variable (hal : Hal) (f : FlowSpec) (s : Sensor)

/-- A ready process at the cursor is the next to run, as it stands. -/
theorem mbSchedPick_cursor {sys : System} (self : Slot) (hcur : sys.sched.current = self.val)
    (hready : (sys.sched.proc self).state = .ready) : ∃ sys₁,
      mbSchedPick hal sys = .ok (some self, sys₁) ∧ sys₁.sched.proc self = sys.sched.proc self := by
  have hproc : (mbSchedWakeSleepers hal sys).sched.proc self = sys.sched.proc self := by
    rw [proc_wakeSleepers]
    rcases wake_cases (hal sys.trace .monotonicMs).ms (sys.sched.proc self) with hw | ⟨hs, -⟩
    · exact hw
    · rw [hready] at hs
      cases hs
  have hcur' : (mbSchedWakeSleepers hal sys).sched.current = self.val := hcur
  have hidx : (self.val + 0) % maxProcesses = self.val := Nat.mod_eq_of_lt self.isLt
  have hscan : scanReady (mbSchedWakeSleepers hal sys).sched
      (mbSchedWakeSleepers hal sys).sched.current 0 maxProcesses = .ok (some self) := by
    rw [hcur']
    show scanReady _ _ 0 (7 + 1) = _
    rw [scanReady]
    simp only [hidx, self.isLt, dite_true, Fin.eta, hproc, hready, if_true]
  refine ⟨{ mbSchedWakeSleepers hal sys with sched :=
    { (mbSchedWakeSleepers hal sys).sched with
        current := (self.val + 1) % maxProcesses } }, ?_, hproc⟩
  simp only [mbSchedPick, hscan, ok_bind]
  rfl

/-- The program of a sensor, spawned alone, gets to its send. -/
theorem lone_sensor {k : ℕ} (hk : k ≤ 10) : ∃ sys σ, Dispatched hal 0 sys ∧
    SensorAt f s 0 (sys.sched.proc 0) σ ∧ σ.next = k ∧ (sys.sched.proc 0).reductions = k := by
  induction k with
  | zero =>
      let sys : System := ⟨(mbSchedSpawn mbSchedInit (f.sensorProgram s)).2, []⟩
      have hrun : Runs hal sys := ⟨[.spawn (f.sensorProgram s)], rfl⟩
      have hproc : sys.sched.proc 0 = mbProcInit (Slot.pid 0) (f.sensorProgram s) :=
        spawned_init.spawn (f.sensorProgram s) 0
      have hcur : sys.sched.current = 0 := rfl
      obtain ⟨sys₁, hpick, hsame⟩ := mbSchedPick_cursor hal 0 hcur (by rw [hproc]; rfl)
      refine ⟨_, ⟨0, 0, 0⟩, .start hrun hpick, ?_, rfl, ?_⟩
      · rw [System.startSlice, Scheduler.proc_setProc_self, hsame, hproc]
        exact (SensorAt.fresh f s 0).congr rfl rfl rfl rfl rfl
      · rw [System.startSlice, Scheduler.proc_setProc_self]
  | succ k ih =>
      obtain ⟨sys, σ, hd, hat, hnext, hred⟩ := ih (by omega)
      obtain ⟨instr, q, events, σ', hi, hnot, hrun, hat', hgo⟩ :=
        hat.run hnext (by omega) hal sys.trace
      obtain ⟨hnext', hstate, hred'⟩ := hgo (by omega)
      have hstep := mbProcStep_run hat.halted (hat.decode_eq hnext hi) hnot hrun
      have hself : (sys.sched.setProc 0 q).proc 0 = q := Scheduler.proc_setProc_self _ _ _
      have hround := runRound_step hat.halted (by rw [hred]; show k < 64; omega) hstep
        (by rw [hself, hstate, hd.ready])
      refine ⟨_, σ', hd.next hround, ?_, hnext', ?_⟩
      · rw [Scheduler.proc_setProc_self, hself]
        exact hat'.spend
      · rw [Scheduler.proc_setProc_self, hself]
        show q.reductions + 1 = k + 1
        rw [hred', hred]

theorem sends_command : ∃ duty, Sends (f.sensorProgram s) (f.command duty) := by
  obtain ⟨sys, σ, hd, hat, hnext, -⟩ := lone_sensor (fun _ _ => ⟨0, 0, 0⟩) f s (le_refl 10)
  have hi : (f.sensorCode s)[10]? = some (.send 3 4 5 7 8 8) := rfl
  exact ⟨σ.value, _, 0, sys, _, _, _, _, _, _, _, hd, hat.program, hat.decode_eq hnext hi,
    sensor_command hat (by omega)⟩

end Lone

/-- A sensor sends to the channel of the flow, and to no other. -/
theorem sendsDutyTo_iff (f : FlowSpec) (s : Sensor) (ch : ℤ) :
    SendsDutyTo (f.sensorProgram s) ch ↔ ch = f.channel := by
  constructor
  · rintro ⟨cmd, hsends, -, rfl⟩
    exact hsends.channel
  · rintro rfl
    obtain ⟨duty, hsends⟩ := sends_command f s
    exact ⟨_, hsends, rfl, hsends.channel⟩

/-! ### The flow map -/

/-- A sensor routed as its entries say, in terms of the entries alone: it has one, and all of
them go to the channel of the first flow. -/
theorem routed_iff {f : FlowSpec} {s : Sensor} {sensor first : ErlTerm} {rest : List ErlTerm}
    (hfirst : first.key "to" = some (pwm f.channel))
    (hto : ∀ e ∈ first :: rest, ∃ n : ℤ, e.key "to" = some (pwm n)) :
    (∀ ch : ℤ, SendsDutyTo (f.sensorProgram s) ch ↔ ∃ e ∈ first :: rest, Routes sensor e ch) ↔
      (∃ e ∈ first :: rest, e.key "from" = sensor.key "addr") ∧
        ∀ e ∈ first :: rest, e.key "from" = sensor.key "addr" → e.key "to" = first.key "to" := by
  simp only [sendsDutyTo_iff]
  constructor
  · intro hall
    obtain ⟨e, he, hfrom, -⟩ := (hall f.channel).mp rfl
    refine ⟨⟨e, he, hfrom⟩, fun e' he' hfrom' => ?_⟩
    obtain ⟨n, hn⟩ := hto e' he'
    have hch : n = f.channel := (hall n).mpr ⟨e', he', hfrom', hn⟩
    rw [hn, hfirst, hch]
  · rintro ⟨⟨e, he, hfrom⟩, hsame⟩ ch
    constructor
    · rintro rfl
      exact ⟨e, he, hfrom, (hsame e he hfrom).trans hfirst⟩
    · rintro ⟨e', he', hfrom', hch⟩
      rw [hsame e' he' hfrom', hfirst, Option.some.injEq] at hch
      simpa [pwm] using hch.symm

/-- When the program of a sensor sends to exactly the channels its flow entries name. -/
theorem sensor_routing {flow first : ErlTerm} {ss rest : List ErlTerm}
    (hvalid : validate flow = .ok ()) (hss : flow.key "sensors" = some (.list ss))
    (hfs : flow.key "flows" = some (.list (first :: rest))) :
    ∃ progs, compileFlow flow = .ok (progs, compileActuator) ∧ progs.length = ss.length ∧
      ∀ (i : ℕ) (sensor : ErlTerm) (program : List Byte), ss[i]? = some sensor →
        progs[i]? = some program →
        ((∀ ch : ℤ, SendsDutyTo program ch ↔ ∃ e ∈ first :: rest, Routes sensor e ch) ↔
          (∃ e ∈ first :: rest, e.key "from" = sensor.key "addr") ∧
            ∀ e ∈ first :: rest, e.key "from" = sensor.key "addr" →
              e.key "to" = first.key "to") := by
  obtain ⟨ss', fs', hss', hfs', hto, -, hcompile⟩ := compileFlow_valid hvalid
  obtain rfl : ss = ss' := by simpa [hss] using hss'
  obtain rfl : first :: rest = fs' := by simpa [hfs] using hfs'
  obtain ⟨f, hall, hfirst, hok⟩ := hcompile first rest rfl
  refine ⟨_, hok, by rw [List.length_map, hall.length_eq], fun i sensor program _ hprogram => ?_⟩
  rw [List.getElem?_map, Option.map_eq_some_iff] at hprogram
  obtain ⟨s, -, rfl⟩ := hprogram
  exact routed_iff hfirst hto

/-- The I2C part of the map in `USE_CASE_SUPPLY_ROBOT.md`: two sensors, and the flows that
drive both motors from the second. -/
def imu : ErlTerm :=
  .map [(.atom "addr", .int 0x68), (.atom "bus", .int 1), (.atom "poll_ms", .int 20),
    (.atom "reg", .int 0x0C)]

def ranger : ErlTerm :=
  .map [(.atom "addr", .int 0x29), (.atom "bus", .int 1), (.atom "poll_ms", .int 50),
    (.atom "reg", .int 0x1E)]

def motorFlow (ch : ℤ) : ErlTerm := .map [(.atom "from", .int 0x29), (.atom "to", pwm ch)]

def motor (ch : ℤ) : ErlTerm := .map [(.atom "channel", .int ch), (.atom "kind", .atom "pwm")]

def supplyRobot : ErlTerm :=
  .map
    [(.atom "actuators", .list [motor 0, motor 1]),
      (.atom "flows", .list [motorFlow 0, motorFlow 1]),
      (.atom "policy", .map [(.atom "mailbox_depth", .int 32),
        (.atom "on_fail", .atom "stop_actuator"), (.atom "watchdog_ms", .int 4000)]),
      (.atom "sensors", .list [imu, ranger])]

/-- The ranger has entries, but not all of them go to the channel of the first. -/
theorem sensor_routing_robot : validate supplyRobot = .ok () ∧ ∃ imuProgram rangerProgram,
    compileFlow supplyRobot = .ok ([imuProgram, rangerProgram], compileActuator) ∧
    ((∀ ch : ℤ, SendsDutyTo rangerProgram ch ↔
        ∃ e ∈ [motorFlow 0, motorFlow 1], Routes ranger e ch) ↔
      (∃ e ∈ [motorFlow 0, motorFlow 1], e.key "from" = ranger.key "addr") ∧
        ∀ e ∈ [motorFlow 0, motorFlow 1], e.key "from" = ranger.key "addr" →
          e.key "to" = (motorFlow 0).key "to") := by
  obtain ⟨progs, hok, hlen, hroutes⟩ := sensor_routing (show validate supplyRobot = _ from rfl)
    (show supplyRobot.key "sensors" = some (.list [imu, ranger]) from rfl) rfl
  obtain ⟨imuProgram, rangerProgram, rfl⟩ := List.length_eq_two.mp hlen
  exact ⟨rfl, imuProgram, rangerProgram, hok, hroutes 1 ranger rangerProgram rfl rfl⟩

/-- The ranger never drives the second motor, and the IMU, which no entry names, drives the
first. -/
theorem supplyRobot_misrouted : validate supplyRobot = .ok () ∧ ∃ imuProgram rangerProgram,
    compileFlow supplyRobot = .ok ([imuProgram, rangerProgram], compileActuator) ∧
    (¬ ∀ ch : ℤ, SendsDutyTo imuProgram ch ↔ ∃ e ∈ [motorFlow 0, motorFlow 1], Routes imu e ch) ∧
    ¬ ∀ ch : ℤ, SendsDutyTo rangerProgram ch ↔
      ∃ e ∈ [motorFlow 0, motorFlow 1], Routes ranger e ch := by
  let imuSpec : Sensor := ⟨1, 0x68, 0x0C, 20, by decide, by decide, by decide⟩
  let rangerSpec : Sensor := ⟨1, 0x29, 0x1E, 50, by decide, by decide, by decide⟩
  let f : FlowSpec := ⟨[imuSpec, rangerSpec], 0, by decide⟩
  refine ⟨rfl, f.sensorProgram imuSpec, f.sensorProgram rangerSpec, rfl, fun hall => ?_,
    fun hall => ?_⟩
  · obtain ⟨e, he, hfrom, -⟩ := (hall 0).mp ((sendsDutyTo_iff f imuSpec 0).mpr rfl)
    have haddr : e.key "from" = some (.int 0x29) := by
      rcases List.mem_cons.mp he with rfl | he
      · rfl
      · rw [List.mem_singleton.mp he]
        rfl
    have himu : imu.key "addr" = some (.int 0x68) := rfl
    rw [haddr, himu] at hfrom
    simp at hfrom
  · have hsend := (hall 1).mpr ⟨motorFlow 1, by simp, rfl, rfl⟩
    exact absurd ((sendsDutyTo_iff f rangerSpec 1).mp hsend) (by decide)

end MiniBeam
