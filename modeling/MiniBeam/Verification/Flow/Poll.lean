import MiniBeam.Verification.Flow.Routing
import MiniBeam.Verification.Scheduler.Sleep

/-! The poll interval of a sensor: an integer of the flow map that becomes four bytes of the
program, 28 bits of a register, and 32 bits of a delay. -/

namespace MiniBeam

open ErlTerm

/-- The intervals that come through these conversions. -/
def PollFits (pollMs : ℤ) : Prop :=
  pollMs < 2 ^ 27 ∨ (2 ^ 32 - 2 ^ 27 ≤ pollMs ∧ pollMs < 2 ^ 32)

theorem held_poll_iff {z : ℤ} (hpos : 0 < z) :
    ((held (BitVec.ofInt 32 z)).toNat : ℤ) = z ↔ PollFits z := by
  have hheld := held_toInt (BitVec.ofInt 32 z)
  rw [BitVec.toInt_ofInt, Int.bmod_bmod_of_dvd (by decide)] at hheld
  have hnat : ((held (BitVec.ofInt 32 z)).toNat : ℤ) = z.bmod (2 ^ 28) % 2 ^ 32 := by
    have hlt := (held (BitVec.ofInt 32 z)).isLt
    rw [← hheld, BitVec.toInt_eq_toNat_cond]
    split <;> omega
  rw [hnat, Int.bmod_def]
  simp only [PollFits]
  split <;> omega

/-- The delay of a sensor's `SLEEP_MS`. -/
theorem SensorAt.delay {f : FlowSpec} {s : Sensor} {i : Slot} {p : Process} {σ : SensorState}
    {r : Reg} {next : ℕ} (h : SensorAt f s i p σ)
    (hd : decode p.program p.pc = (.ok (.sleepMs r), next)) :
    p.int r = held (BitVec.ofInt 32 s.pollMs) := by
  have hsleep := h.instr_eq hd
  have hnext := h.next_lt
  have hpoll : (f.loads s)[6]? = some (6, BitVec.ofInt 32 s.pollMs) := rfl
  have hrest : (f.sensorCode s)[11]? = some s.rest := rfl
  by_cases hk : σ.next = 11
  · rw [hk, hrest, Option.some.injEq, Sensor.rest] at hsleep
    split at hsleep
    · cases hsleep
    · cases hsleep
      exact h.int_eq (by omega) (List.mem_of_getElem? hpoll) (by decide)
  · generalize σ.next = k at hsleep hnext hk
    exfalso
    rcases k with _ | _ | _ | _ | _ | _ | _ | _ | _ | _ | _ | _ | _ | k
    all_goals first
      | omega
      | simp [FlowSpec.sensorCode, FlowSpec.loads] at hsleep

/-- The program that the compiler makes of a sensor entry. -/
theorem compileFlow_sensor {flow sensor : ErlTerm} {ss : List ErlTerm}
    {progs : List (List Byte)} {act program : List Byte} {n : ℕ}
    (hvalid : validate flow = .ok ()) (hcompile : compileFlow flow = .ok (progs, act))
    (hss : flow.key "sensors" = some (.list ss)) (hsensor : ss[n]? = some sensor)
    (hprogram : progs[n]? = some program) :
    ∃ (f : FlowSpec) (s : Sensor), s.Describes sensor ∧ program = f.sensorProgram s := by
  obtain ⟨ss', fs, hss', -, -, hempty, hflows⟩ := compileFlow_valid hvalid
  obtain rfl : ss = ss' := by simpa [hss] using hss'
  cases fs with
  | nil =>
      rw [hempty rfl] at hcompile
      cases hcompile
  | cons first rest =>
      obtain ⟨f, hall, -, hok⟩ := hflows first rest rfl
      rw [hok] at hcompile
      cases hcompile
      rw [List.getElem?_map, Option.map_eq_some_iff] at hprogram
      obtain ⟨s, hs, rfl⟩ := hprogram
      obtain ⟨hlt, hget⟩ := List.getElem?_eq_some_iff.mp hs
      obtain ⟨hlt', hget'⟩ := List.getElem?_eq_some_iff.mp hsensor
      refine ⟨f, s, ?_, rfl⟩
      have hdescribes := hall.get hlt hlt'
      rwa [List.get_eq_getElem, List.get_eq_getElem, hget, hget'] at hdescribes

/-- The delay that a compiled sensor adds to the clock is its `poll_ms` exactly when that
fits. -/
theorem poll_delay_iff {hal : Hal} {flow sensor : ErlTerm} {ss : List ErlTerm}
    {progs : List (List Byte)} {act program : List Byte} {n : ℕ} {pollMs : ℤ}
    (hvalid : validate flow = .ok ()) (hcompile : compileFlow flow = .ok (progs, act))
    (hss : flow.key "sensors" = some (.list ss)) (hsensor : ss[n]? = some sensor)
    (hprogram : progs[n]? = some program) (hpoll : sensor.key "poll_ms" = some (.int pollMs))
    (hpos : 0 < pollMs) {self : Slot} {sys : System} {r : Reg} {next : ℕ}
    (hd : Dispatched hal self sys) (hruns : (sys.sched.proc self).program = program)
    (hsleep : decode (sys.sched.proc self).program (sys.sched.proc self).pc =
      (.ok (.sleepMs r), next)) :
    ∃ (sys' : System) (delay : BitVec 32),
      mbProcStep hal (sys.machine self) = .ok (.ok, sys'.machine self) ∧
      (sys'.sched.proc self).state = .sleeping ∧
      (sys'.sched.proc self).sleepUntilMs = (hal sys.trace .monotonicMs).ms + delay ∧
      ((delay.toNat : ℤ) = pollMs ↔ PollFits pollMs) := by
  obtain ⟨f, s, hdescribes, rfl⟩ := compileFlow_sensor hvalid hcompile hss hsensor hprogram
  obtain ⟨σ, hσ⟩ := (senses_invariant hal f s).dispatched hd self (by rw [hd.ready]; decide) hruns
  have hsame : s.pollMs = pollMs := by
    have hkey := hdescribes.pollMs
    rw [hpoll] at hkey
    cases hkey
    rfl
  refine ⟨sys.asleep hal self r next, (sys.sched.proc self).int r,
    mbProcStep_sleepMs hd.running hsleep, ?_, ?_, ?_⟩
  · rw [System.asleep, Scheduler.proc_setProc_self]
  · rw [System.asleep, Scheduler.proc_setProc_self]
  · rw [hσ.delay hsleep, hsame]
    exact held_poll_iff hpos

/-- The sensor of `fastPoll` with an interval of `2 ^ 27` milliseconds. -/
def slowProgram : List Byte := compileSensor 1 0x39 0x92 (2 ^ 27) 0 2

theorem slowProgram_run : ∃ sys, Dispatched idleHal 0 sys ∧
    (sys.sched.proc 0).program = slowProgram ∧
    decode (sys.sched.proc 0).program (sys.sched.proc 0).pc = (.ok (.sleepMs 6), 68) ∧
    ((sys.sched.proc 0).int 6).toNat = 2 ^ 32 - 2 ^ 27 := by
  have hrun : (inSlice idleHal [.spawn slowProgram] 0 11).map (fun sys =>
      ((sys.sched.proc 0).program, (sys.sched.proc 0).pc, ((sys.sched.proc 0).int 6).toNat)) =
      .ok (slowProgram, 66, 2 ^ 32 - 2 ^ 27) := by
    decide +kernel
  obtain ⟨sys, hsys, hm⟩ := exists_ok_of_map _ _ _ hrun
  simp only [Prod.mk.injEq] at hm
  refine ⟨sys, inSlice_dispatched hsys, hm.1, ?_, hm.2.2⟩
  rw [hm.1, hm.2.1]
  decide +kernel

theorem slowProgram_compiled : validate (fastPoll (2 ^ 27)) = .ok () ∧
    compileFlow (fastPoll (2 ^ 27)) = .ok ([slowProgram], compileActuator) := ⟨rfl, rfl⟩

theorem poll_delay_iff_slow : ∃ (sys sys' : System) (delay : BitVec 32),
    Dispatched idleHal 0 sys ∧ (sys.sched.proc 0).program = slowProgram ∧
    mbProcStep idleHal (sys.machine 0) = .ok (.ok, sys'.machine 0) ∧
    (sys'.sched.proc 0).state = .sleeping ∧
    (sys'.sched.proc 0).sleepUntilMs = (idleHal sys.trace .monotonicMs).ms + delay ∧
    ((delay.toNat : ℤ) = 2 ^ 27 ↔ PollFits (2 ^ 27)) := by
  obtain ⟨hvalid, hcompile⟩ := slowProgram_compiled
  obtain ⟨sys, hd, hruns, hsleep, -⟩ := slowProgram_run
  have hss : (fastPoll (2 ^ 27)).key "sensors" = some (.list [.map [(.atom "addr", .int 0x39),
    (.atom "bus", .int 1), (.atom "poll_ms", .int (2 ^ 27)), (.atom "reg", .int 0x92)]]) := rfl
  have hpoll : (ErlTerm.map [(.atom "addr", .int 0x39), (.atom "bus", .int 1),
      (.atom "poll_ms", .int (2 ^ 27)), (.atom "reg", .int 0x92)]).key "poll_ms" =
    some (.int (2 ^ 27)) := rfl
  obtain ⟨sys', delay, h⟩ := poll_delay_iff (n := 0) hvalid hcompile hss rfl rfl hpoll
    (by decide) hd hruns hsleep
  exact ⟨sys, sys', delay, hd, hruns, h⟩

/-- A sensor to be polled every `2 ^ 27` milliseconds sleeps for 31 times as long. -/
theorem slow_poll : validate (fastPoll (2 ^ 27)) = .ok () ∧
    compileFlow (fastPoll (2 ^ 27)) = .ok ([slowProgram], compileActuator) ∧
    ∃ sys sys' : System, Dispatched idleHal 0 sys ∧
      (sys.sched.proc 0).program = slowProgram ∧
      mbProcStep idleHal (sys.machine 0) = .ok (.ok, sys'.machine 0) ∧
      (sys'.sched.proc 0).state = .sleeping ∧
      (sys'.sched.proc 0).sleepUntilMs =
        (idleHal sys.trace .monotonicMs).ms + BitVec.ofNat 32 (31 * 2 ^ 27) := by
  obtain ⟨hvalid, hcompile⟩ := slowProgram_compiled
  obtain ⟨sys, hd, hruns, hsleep, hdelay⟩ := slowProgram_run
  have hbits : (sys.sched.proc 0).int 6 = BitVec.ofNat 32 (31 * 2 ^ 27) := by
    apply BitVec.eq_of_toNat_eq
    rw [hdelay]
    decide
  refine ⟨hvalid, hcompile, sys, sys.asleep idleHal 0 6 68, hd, hruns,
    mbProcStep_sleepMs hd.running hsleep, ?_, ?_⟩
  · rw [System.asleep, Scheduler.proc_setProc_self]
  · rw [System.asleep, Scheduler.proc_setProc_self, ← hbits]

end MiniBeam
