import MiniBeam.Verification.Flow.Throughput
import MiniBeam.Verification.Hal.Nrf52

/-! A compiled flow down to the devices of the nRF52: what stands on the PWM channel is a selection,
in order, of what came over I2C. -/

namespace MiniBeam

/-! ### Devices and events -/

/-- The bytes of the successful reads on I2C. -/
def Nrf52Log.bytes (log : Nrf52Log) : List Byte :=
  log.i2c.filterMap fun op => if op.rc = 0 then op.rx else none

/-- The channels, periods and pulses the PWM was set to, whether or not it accepted them. -/
def Nrf52Log.pulses (log : Nrf52Log) : List (Byte × BitVec 32 × BitVec 32) :=
  log.pwm.map fun s => (s.channel, s.periodNs, s.pulseNs)

/-- The pulse for a duty: a period of 20 µs, and 20 ns for each permille. -/
def pulseOf (channel : Byte) (duty : ℕ) : Byte × BitVec 32 × BitVec 32 :=
  (channel, 20000, .ofNat 32 (20 * duty))

def Event.pulse : Event → Option (Byte × BitVec 32 × BitVec 32)
  | .hal _ (.pwmSetDuty channel duty) _ => some (pulseOf channel duty.toNat)
  | _ => none

/-- An event that sets no frequency. -/
def Event.Unconfigured : Event → Prop
  | .hal _ (.pwmConfig _ _) _ => False
  | _ => True

/-- The PWM is in the devicetree and ready. -/
def Nrf52.PwmReady (board : Nrf52) : Prop :=
  ∃ dev, board.pwm0 = some dev ∧ ∀ log, dev.ready log = true

/-- A transfer on I2C that fails returns a negative errno. -/
def Nrf52.ErrnoNegative (board : Nrf52) : Prop :=
  ∀ bus log dev, mbGetI2cBus board log bus = some dev → ∀ addr tx,
    (dev.writeRead log addr tx).1 ≠ 0 →
      -2 ^ 27 ≤ (dev.writeRead log addr tx).1.toInt ∧ (dev.writeRead log addr tx).1.toInt < 0

section Call

variable (board : Nrf52) (log : Nrf52Log) (pid : Byte) (call : HalCall)

theorem Nrf52.call_bytes : (board.call log call).2.bytes =
    log.bytes ++ [Event.hal pid call (board.call log call).1].filterMap Event.readByte := by
  cases call with
  | i2cReadReg bus addr reg =>
      simp only [Nrf52.call]
      rcases mbHalI2cReadReg_cases board log.i2c bus addr reg with hr | ⟨-, rc, value, hr⟩
      · rw [hr]
        simp [Event.readByte]
      · rw [hr]
        by_cases hrc : rc = 0#32
        · simp [Nrf52Log.bytes, Event.readByte, hrc]
        · simp [Nrf52Log.bytes, Event.readByte, hrc]
  | i2cWriteReg bus addr reg value =>
      simp only [Nrf52.call]
      rcases mbHalI2cWriteReg_cases board log.i2c bus addr reg value with hr | ⟨-, rc, hr⟩
      · rw [hr]
        simp [Event.readByte]
      · rw [hr]
        simp [Nrf52Log.bytes, Event.readByte]
  | _ => exact (List.append_nil _).symm

theorem mbHalPwmSetDuty_ready {pwm0 : Pwm0} {log : List PwmSet} {dev : PwmDevice} (channel : Byte)
    {permille : BitVec 16} (hdev : pwm0 = some dev) (hready : dev.ready log = true)
    (hle : permille.toNat ≤ 1000) : (mbHalPwmSetDuty pwm0 log channel permille).2 ≠ log := by
  rw [hdev]
  simp only [mbHalPwmSetDuty]
  rw [if_neg (by simp [hready, hle])]
  simp [pwmSet]

/-- A call that sets no frequency sets the PWM to the pulse of its duty, or not at all. -/
theorem Nrf52.call_pulses {reply : HalReply} (hf : (Event.hal pid call reply).Unconfigured) :
    ((board.call log call).2.pulses = log.pulses ∨ (board.call log call).2.pulses =
      log.pulses ++ [Event.hal pid call reply].filterMap Event.pulse) ∧
    (board.PwmReady → call.InRange → (board.call log call).2.pulses =
      log.pulses ++ [Event.hal pid call reply].filterMap Event.pulse) := by
  cases call with
  | pwmSetDuty channel duty =>
      have hmade : ∀ rc, mbHalPwmSetDuty board.pwm0 log.pwm channel duty =
          (rc, log.pwm ++ [⟨channel, 20000, .ofNat 32 (20 * duty.toNat), rc⟩]) →
          (board.call log (.pwmSetDuty channel duty)).2.pulses =
            log.pulses ++ [pulseOf channel duty.toNat] := by
        intro rc hr
        simp only [Nrf52.call]
        rw [hr]
        simp [Nrf52Log.pulses, pulseOf]
      rcases mbHalPwmSetDuty_cases board.pwm0 log.pwm channel duty with hr | ⟨-, rc, hr⟩
      · have hsame : (board.call log (.pwmSetDuty channel duty)).2.pulses = log.pulses := by
          simp only [Nrf52.call]
          rw [hr]
        refine ⟨.inl hsame, fun hpwm hrange => ?_⟩
        obtain ⟨dev, hdev, hready⟩ := hpwm
        exact absurd (congrArg Prod.snd hr)
          (mbHalPwmSetDuty_ready channel hdev (hready _) hrange.2)
      · exact ⟨.inr (hmade rc hr), fun _ _ => hmade rc hr⟩
  | pwmConfig channel frequencyHz => exact absurd hf id
  | _ => exact ⟨.inl rfl, fun _ _ => (List.append_nil _).symm⟩

end Call

section Device

variable {board : Trace → Nrf52} {t : Trace}

theorem nrf52_failsNegative (h : ∀ t, (board t).ErrnoNegative) :
    (nrf52 board).hal.FailsNegative := by
  intro t bus addr reg
  have hreply : ((nrf52 board).hal t (.i2cReadReg bus addr reg)).rc =
      (mbHalI2cReadReg (board t) ((nrf52 board).after t).i2c bus addr reg).1 := rfl
  rw [hreply]
  unfold mbHalI2cReadReg
  split
  · intro _
    exact ⟨by show -2 ^ 27 ≤ (-1 : I32).toInt; decide, by show (-1 : I32).toInt < 0; decide⟩
  · rename_i dev hdev
    exact h t bus _ dev hdev addr [reg]

theorem Event.quiet_none {e : Event} (he : ∀ pid call reply, e ≠ .hal pid call reply) :
    e.readByte = none ∧ e.pulse = none := by
  cases e with
  | hal pid call reply => exact absurd rfl (he pid call reply)
  | push | pop => exact ⟨rfl, rfl⟩

/-- The bytes a program read are those that came over the buses. -/
theorem Answered.bytes (h : Answered (nrf52 board).hal t) :
    ((nrf52 board).after t).bytes = t.filterMap Event.readByte := by
  induction h with
  | nil => rfl
  | quiet _ he ih =>
      rw [Backend.after_quiet _ _ he, ih, List.filterMap_append]
      simp [(Event.quiet_none he).1]
  | @call t call pid _ _ ih =>
      rw [Backend.after_call, List.filterMap_append, ← ih]
      exact (board t).call_bytes _ pid call

/-- Without a change of frequency, the PWM is set to nothing but the pulses of the duties. -/
theorem Answered.pulses (h : Answered (nrf52 board).hal t) (hf : ∀ e ∈ t, e.Unconfigured) :
    ((nrf52 board).after t).pulses.Sublist (t.filterMap Event.pulse) ∧
      ((∀ t, (board t).PwmReady) → ((nrf52 board).after t).pulses = t.filterMap Event.pulse) := by
  induction h with
  | nil => exact ⟨List.nil_sublist _, fun _ => rfl⟩
  | @quiet t e _ he ih =>
      rw [Backend.after_quiet _ _ he, List.filterMap_append]
      simpa [(Event.quiet_none he).2] using ih fun e he => hf e (List.mem_append_left _ he)
  | @call t call pid _ hrange ih =>
      obtain ⟨hsub, heq⟩ := ih fun e he => hf e (List.mem_append_left _ he)
      have hlast := hf _ (List.mem_append_right _ (List.mem_singleton_self _))
      obtain ⟨hmade, hready⟩ := (board t).call_pulses ((nrf52 board).after t) pid call hlast
      rw [Backend.after_call, List.filterMap_append]
      refine ⟨?_, fun hall => (hready (hall t) hrange).trans ?_⟩
      · rcases hmade with hsame | hnew
        · exact hsame ▸ hsub.trans (List.sublist_append_left _ _)
        · exact hnew ▸ hsub.append_right _
      · rw [heq hall]

end Device

/-! ### Flows -/

section Flow

variable {hal : Hal} {f : FlowSpec} {who : Option Slot} {self : Slot} {a a' : FlowState}
  {progs : List (List Byte)} {act : List Byte} {sys : System}

theorem FlowStep.unconfigured {ends : Bool} (hs : FlowStep hal f self a ends a')
    (h : ∀ e ∈ a.trace, e.Unconfigured) : ∀ e ∈ a'.trace, e.Unconfigured := by
  cases hs with
  | spent | block | load | lost | yield | jump | loop => exact h
  | read | clock | sleep | drive | send | receive => exact forall_mem_snoc h trivial

theorem FlowReach.unconfigured (h : FlowReach hal f who a) : ∀ e ∈ a.trace, e.Unconfigured := by
  induction h with
  | start => exact nofun
  | idle _ ih => exact forall_mem_snoc ih trivial
  | pick _ _ ih => exact forall_mem_snoc ih trivial
  | step _ round ih => exact round.unconfigured ih
  | stop _ round ih => exact round.unconfigured ih

/-- The pulses of a trace on one channel. -/
theorem pulses_eq {t : Trace} (h : ∀ e ∈ t, e.OnChannel f) :
    t.filterMap Event.pulse = (dutiesOf t).map (pulseOf (BitVec.ofInt 8 f.channel)) := by
  induction t with
  | nil => rfl
  | cons e t ih =>
      have hrest := ih fun e he => h e (List.mem_cons_of_mem _ he)
      have hfirst := h e List.mem_cons_self
      unfold dutiesOf at hrest ⊢
      cases e with
      | hal pid call reply =>
          cases call with
          | pwmSetDuty channel duty =>
              obtain rfl : channel = BitVec.ofInt 8 f.channel := hfirst
              simp [Event.pulse, Event.duty, hrest]
          | _ => exact hrest
      | push | pop => exact hrest

/-- The device of a flow at any moment of its run. -/
theorem FlowReach.pulses {board : Trace → Nrf52} (h : FlowReach (nrf52 board).hal f who a)
    (ht : Answered (nrf52 board).hal a.trace) :
    ((nrf52 board).after a.trace).pulses.Sublist
        ((dutiesOf a.trace).map (pulseOf (BitVec.ofInt 8 f.channel))) ∧
      ((∀ t, (board t).PwmReady) → ((nrf52 board).after a.trace).pulses =
        (dutiesOf a.trace).map (pulseOf (BitVec.ofInt 8 f.channel))) := by
  rw [← pulses_eq fun e he => (h.events e he).1]
  exact ht.pulses h.unconfigured

theorem FlowSpec.toNat_channel (f : FlowSpec) :
    ((BitVec.ofInt 8 f.channel).toNat : ℤ) = f.channel := by
  have hrange := f.channel_range
  rw [BitVec.toNat_ofInt]
  omega

end Flow

/-- On the nRF52, at any moment of a run of a compiled flow, the PWM was set only on the channel of
the flow, and to pulses that are an in-order selection of the bytes read over I2C, each byte
20 ns for each of its units. -/
theorem flow_pulses {flow : ErlTerm} {progs : List (List Byte)} {act : List Byte}
    (h : compile flow = .ok (progs, act)) {board : Trace → Nrf52}
    (herrno : ∀ t, (board t).ErrnoNegative) {sys : System}
    (hr : FlowReached (nrf52 board).hal progs act sys) :
    ∃ channel : Byte, compiledChannel flow = .ok (.int channel.toNat) ∧
      ((nrf52 board).after sys.trace).pulses.Sublist
        (((nrf52 board).after sys.trace).bytes.map fun b => pulseOf channel b.toNat) := by
  obtain ⟨f, rfl, rfl, hchannel⟩ := compile_ok h
  obtain ⟨who, a, hrep, hreach, hreached⟩ : ∃ who a, Represents f sys a ∧
      FlowReach (nrf52 board).hal f who a ∧ Reached (nrf52 board).hal sys := by
    rcases hr with hr | ⟨self, hd⟩
    · obtain ⟨a, hrep, hreach⟩ := flow_refines hr
      exact ⟨none, a, hrep, hreach, .inl hr.runs⟩
    · obtain ⟨a, hslice, hreach⟩ := flow_refines_slice hd
      exact ⟨some self, a, hslice.represents, hreach, .inr ⟨self, hd.dispatched⟩⟩
  have hanswered := hreached.answered
  refine ⟨BitVec.ofInt 8 f.channel, by rw [hchannel, f.toNat_channel], ?_⟩
  rw [hanswered.bytes]
  rw [hrep.trace] at hanswered ⊢
  have hordered := hreach.ordered (nrf52_failsNegative herrno)
  have hduties := (List.sublist_append_left _ _).trans hordered
  have hpulses :=
    (hreach.pulses hanswered).1.trans (hduties.map (pulseOf (BitVec.ofInt 8 f.channel)))
  rwa [readsOf, List.map_map] at hpulses

/-- A board with its PWM, and a sensor on bus 1 that reads 42. -/
def sensorBoard : Nrf52 where
  led0 := none
  pwm0 := readyPwm
  i2c0 := none
  i2c1 := some ⟨fun _ => true, fun _ _ _ => (0, 42), fun _ _ _ => 0⟩
  uptime := 0

/-- One byte read, and its pulse. -/
theorem flow_pulses_fastPoll : ∃ sys channel,
    FlowReached (nrf52 fun _ => sensorBoard).hal [compileSensor 1 0x39 0x92 0 0 2] compileActuator
      sys ∧
    ((nrf52 fun _ => sensorBoard).after sys.trace).pulses = [(0, 20000, 840)] ∧
    ((nrf52 fun _ => sensorBoard).after sys.trace).pulses.Sublist
      (((nrf52 fun _ => sensorBoard).after sys.trace).bytes.map
        fun b => pulseOf channel b.toNat) := by
  have herrno : sensorBoard.ErrnoNegative := by
    intro bus log dev hdev addr tx hrc
    unfold mbGetI2cBus at hdev
    split at hdev
    · cases hdev
    · split at hdev
      · cases hdev
        exact absurd rfl hrc
      · cases hdev
  obtain ⟨sys, hrun, hpulses⟩ := exists_ok_of_map
    (runCalls (nrf52 fun _ => sensorBoard).hal
      ⟨deploy [compileSensor 1 0x39 0x92 0 0 2] compileActuator, []⟩ (List.replicate 2 .tick))
    (fun sys => ((nrf52 fun _ => sensorBoard).after sys.trace).pulses) [(0, 20000, 840)]
    (by decide +kernel)
  have hreached : FlowReached (nrf52 fun _ => sensorBoard).hal
      [compileSensor 1 0x39 0x92 0 0 2] compileActuator sys := .inl (FlowRuns.deployed.ticks hrun)
  obtain ⟨channel, -, hsub⟩ := flow_pulses (show compile (fastPoll 0) = _ from rfl)
    (fun _ => herrno) hreached
  exact ⟨sys, channel, hreached, hpulses, hsub⟩

/-- Where the PWM is always ready, its pulses are the first of the duties commanded to the
actuator, in order, and sixteen more ticks set it to all of them. -/
theorem flow_pulses_all {flow : ErlTerm} {progs : List (List Byte)} {act : List Byte}
    (h : compile flow = .ok (progs, act)) {board : Trace → Nrf52}
    (hready : ∀ t, (board t).PwmReady) {sys : System}
    (hr : FlowRuns (nrf52 board).hal progs act sys) {i : Slot} (hi : i.val = progs.length) :
    ∃ channel : Byte, compiledChannel flow = .ok (.int channel.toNat) ∧
      ((nrf52 board).after sys.trace).pulses <+: (commanded i.pid sys.trace).map (pulseOf channel) ∧
      ∀ n, 16 ≤ n → ∃ sys', runCalls (nrf52 board).hal sys (List.replicate n .tick) = .ok sys' ∧
        (commanded i.pid sys.trace).map (pulseOf channel) <+:
          ((nrf52 board).after sys'.trace).pulses := by
  obtain ⟨f, rfl, rfl, hchannel⟩ := compile_ok h
  rw [List.length_map] at hi
  have hpins : ∀ sys,
      FlowRuns (nrf52 board).hal (f.sensors.map f.sensorProgram) compileActuator sys →
      ((nrf52 board).after sys.trace).pulses =
        (dutiesOf sys.trace).map (pulseOf (BitVec.ofInt 8 f.channel)) := by
    intro sys hr
    have hanswered : Answered (nrf52 board).hal sys.trace :=
      (show Reached _ sys from .inl hr.runs).answered
    obtain ⟨a, hat⟩ := hr.at
    rw [hat.represents.trace] at hanswered ⊢
    exact (hat.reach.pulses hanswered).2 hready
  obtain ⟨a, hat⟩ := hr.at
  refine ⟨BitVec.ofInt 8 f.channel, by rw [hchannel, f.toNat_channel], ?_, fun n hn => ?_⟩
  · have hall := hat.reach.handled hi
    rw [← hat.represents.trace] at hall
    rw [hpins sys hr, hall, List.map_append]
    exact List.prefix_append _ _
  · obtain ⟨sys', hrun⟩ := hat.returns n
    refine ⟨sys', hrun, ?_⟩
    rw [hpins sys' (hr.ticks hrun)]
    exact (hat.drives hi hn hrun).map _

/-- The byte of the first tick is on the pin sixteen ticks later. -/
theorem flow_pulses_all_fastPoll : ∃ sys sys' channel,
    commanded 2 sys.trace = [42] ∧
    runCalls (nrf52 fun _ => sensorBoard).hal sys (List.replicate 16 .tick) = .ok sys' ∧
    [pulseOf channel 42] <+: ((nrf52 fun _ => sensorBoard).after sys'.trace).pulses := by
  have hready : sensorBoard.PwmReady := ⟨_, rfl, fun _ => rfl⟩
  obtain ⟨sys, hrun, hduty⟩ := exists_ok_of_map
    (runCalls (nrf52 fun _ => sensorBoard).hal
      ⟨deploy [compileSensor 1 0x39 0x92 0 0 2] compileActuator, []⟩ [.tick])
    (fun sys => commanded 2 sys.trace) [42] (by decide +kernel)
  obtain ⟨channel, -, -, hall⟩ := flow_pulses_all (i := 1)
    (show compile (fastPoll 0) = _ from rfl) (fun _ => hready)
    (FlowRuns.deployed.ticks (n := 1) hrun) rfl
  obtain ⟨sys', hrun', hprefix⟩ := hall 16 (Nat.le_refl _)
  have hcommanded : commanded (Slot.pid 1) sys.trace = [42] := hduty
  rw [hcommanded] at hprefix
  exact ⟨sys, sys', channel, hduty, hrun', hprefix⟩

end MiniBeam
