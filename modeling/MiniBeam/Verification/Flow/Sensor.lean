import MiniBeam.Verification.Flow.Deploy
import MiniBeam.Verification.Flow.Machine
import MiniBeam.Verification.Scheduler.Runs
import MiniBeam.Verification.Step.Control

/-! A process that runs the program of a sensor: where it stands, what its registers hold,
and the effect of each of its instructions. -/

namespace MiniBeam

/-! ### Rounds of the interpreter -/

/-- The process at the end of a round that goes on. -/
def Process.spend (p : Process) : Process := { p with reductions := p.reductions + 1 }

section Round

variable {hal : Hal} {sys : System} {self : Slot} {i : Instr} {pc : ℕ} {q : Process}
  {events : List Event}

theorem mbProcStep_run (hh : (sys.sched.proc self).halted = false)
    (hd : decode (sys.sched.proc self).program (sys.sched.proc self).pc = (.ok i, pc))
    (hi : ¬ i.IsSend)
    (hrun : i.run hal true (sys.sched.proc self).pc ((sys.sched.proc self).setPc pc) sys.trace =
      .ok (.ok, q, events)) :
    mbProcStep hal (sys.machine self) =
      .ok (.ok, (System.mk (sys.sched.setProc self q) (sys.trace ++ events)).machine self) := by
  have hp : (sys.machine self).proc = sys.sched.proc self := rfl
  rw [mbProcStep_eq, hp, hh, hd]
  simp only [Bool.false_eq_true, if_false]
  rw [execInstr_run hal _ hi, Machine.proc_setProc]
  have hs : ((sys.machine self).setProc ((sys.sched.proc self).setPc pc)).ctx.scheduled = true :=
    rfl
  have ht : ((sys.machine self).setProc ((sys.sched.proc self).setPc pc)).trace = sys.trace := rfl
  simp only [hs, ht, hrun, ok_bind, pure_ok, if_true, Machine.setProc_setProc]
  rfl

/-- A round whose instruction leaves the process ready. -/
theorem runRound_step {sys' : System} (hh : (sys.sched.proc self).halted = false)
    (hb : (sys.sched.proc self).reductions < maxReductions)
    (hstep : mbProcStep hal (sys.machine self) = .ok (.ok, sys'.machine self))
    (hready : (sys'.sched.proc self).state = .ready) :
    runRound hal maxReductions (sys.machine self) = .ok (none,
      (System.mk (sys'.sched.setProc self (sys'.sched.proc self).spend)
        sys'.trace).machine self) := by
  have hp : (sys.machine self).proc = sys.sched.proc self := rfl
  have hp' : (sys'.machine self).proc = sys'.sched.proc self := rfl
  have hgo : ¬ ((sys.machine self).proc.halted = true ∨
      (sys.machine self).proc.reductions ≥ maxReductions) := by
    rw [hp, hh]
    simpa using hb
  have hstay : ¬ ((sys'.machine self).ctx.scheduled = true ∧
      (sys'.machine self).proc.state ≠ .ready) := fun h => h.2 (hp' ▸ hready)
  rw [runRound, if_neg hgo, hstep]
  simp only [ok_bind, ne_eq, not_true_eq_false, if_false, if_neg hstay, pure_ok]
  rfl

/-- A round whose instruction takes the process off the processor. -/
theorem runRound_leave {sys' : System} (hh : (sys.sched.proc self).halted = false)
    (hb : (sys.sched.proc self).reductions < maxReductions)
    (hstep : mbProcStep hal (sys.machine self) = .ok (.ok, sys'.machine self))
    (hstate : (sys'.sched.proc self).state ≠ .ready) :
    runRound hal maxReductions (sys.machine self) = .ok (some .ok, sys'.machine self) := by
  have hp : (sys.machine self).proc = sys.sched.proc self := rfl
  have hp' : (sys'.machine self).proc = sys'.sched.proc self := rfl
  have hs : (sys'.machine self).ctx.scheduled = true := rfl
  have hgo : ¬ ((sys.machine self).proc.halted = true ∨
      (sys.machine self).proc.reductions ≥ maxReductions) := by
    rw [hp, hh]
    simpa using hb
  rw [runRound, if_neg hgo, hstep]
  simp only [ok_bind, ne_eq, not_true_eq_false, if_false, hp', hs, hstate, not_false_eq_true,
    and_self, if_true, pure_ok]

/-- A round that finds the budget spent. -/
theorem runRound_spent (hb : maxReductions ≤ (sys.sched.proc self).reductions) :
    runRound hal maxReductions (sys.machine self) = .ok (some .ok, sys.machine self) :=
  if_pos (.inr hb)

end Round

/-- A `SEND` that finished, as a step. -/
theorem mbProcStep_sent (hal : Hal) {sys : System} {self : Slot} {pc : ℕ}
    {rPid rType rA rB rC rD : Reg} {after : Scheduler} {events : List Event}
    (hh : (sys.sched.proc self).halted = false)
    (hd : decode (sys.sched.proc self).program (sys.sched.proc self).pc =
      (.ok (.send rPid rType rA rB rC rD), pc))
    (h : sendFrom (sys.sched.setProc self ((sys.sched.proc self).setPc pc)) self rPid rType rA rB
      rC rD = .ok (after, events)) :
    mbProcStep hal (sys.machine self) =
      .ok (.ok, (System.mk after (sys.trace ++ events)).machine self) := by
  have hp : (sys.machine self).proc = sys.sched.proc self := rfl
  rw [mbProcStep_eq, hp, hh, hd]
  have hctx : ((sys.machine self).setProc ((sys.sched.proc self).setPc pc)).ctx =
      .sched (sys.sched.setProc self ((sys.sched.proc self).setPc pc)) self := rfl
  simp only [Bool.false_eq_true, if_false, execInstr, hctx, h, ok_bind, pure_ok]
  rfl

/-! ### Where a sensor stands -/

/-- A process that runs the program of a sensor, between two instructions. -/
structure SensorAt (f : FlowSpec) (s : Sensor) (i : Slot) (p : Process) (σ : SensorState) :
    Prop where
  program : p.program = f.sensorProgram s
  pc : p.pc = offset (f.sensorCode s) σ.next
  next_lt : σ.next < 13
  halted : p.halted = false
  pid : p.pid = i.pid
  loaded : ∀ c ∈ (f.loads s).take σ.next, c.1 ≠ 3 → p.reg c.1 = makeSmallint c.2
  target : p.int 3 = σ.target
  value : p.int 7 = σ.value

theorem mbProcInit_int (pid : Byte) (program : List Byte) (r : Reg) :
    (mbProcInit pid program).int r = 0 := by
  simp [Process.int, Process.reg, mbProcInit, Process.zero, getSmallint]

namespace FlowSpec

theorem ofInt_toInt {z : ℤ} (hlo : -2 ^ 31 ≤ z) (hhi : z < 2 ^ 31) :
    (BitVec.ofInt 32 z).toInt = z := by
  rw [BitVec.toInt_ofInt]
  exact Int.bmod_eq_of_le (by omega) (by omega)

theorem inRange_ofInt {lo hi z : ℤ} (h : lo ≤ z ∧ z ≤ hi) (hlo : -2 ^ 31 ≤ lo) (hhi : hi < 2 ^ 31) :
    inRange lo hi (BitVec.ofInt 32 z) = true := by
  simp only [inRange, ofInt_toInt (z := z) (by omega) (by omega), h.1, h.2, decide_true,
    Bool.and_self]

end FlowSpec

/-! ### Sensor instructions -/

namespace SensorAt

variable {f : FlowSpec} {s : Sensor} {i : Slot} {p q : Process} {σ : SensorState}

/-- Only these parts of a process matter. -/
theorem congr (h : SensorAt f s i p σ) (hprogram : q.program = p.program) (hpc : q.pc = p.pc)
    (hhalted : q.halted = p.halted) (hpid : q.pid = p.pid) (hregs : q.regs = p.regs) :
    SensorAt f s i q σ := by
  have hreg : ∀ r, q.reg r = p.reg r := fun r => by simp only [Process.reg, hregs]
  have hint : ∀ r, q.int r = p.int r := fun r => by simp only [Process.int, hreg]
  exact ⟨hprogram.trans h.program, hpc.trans h.pc, h.next_lt, hhalted.trans h.halted,
    hpid.trans h.pid, fun c hc h3 => (hreg c.1).trans (h.loaded c hc h3),
    (hint 3).trans h.target, (hint 7).trans h.value⟩

/-- Right after the spawn. -/
theorem fresh (f : FlowSpec) (s : Sensor) (i : Slot) :
    SensorAt f s i (mbProcInit i.pid (f.sensorProgram s)) ⟨0, 0, 0⟩ :=
  ⟨rfl, rfl, Nat.succ_pos 12, rfl, rfl, by simp, mbProcInit_int _ _ _, mbProcInit_int _ _ _⟩

theorem spend (h : SensorAt f s i p σ) : SensorAt f s i p.spend σ := h.congr rfl rfl rfl rfl rfl

theorem fail (h : SensorAt f s i p σ) (e : Status) : SensorAt f s i (p.fail e) σ :=
  h.congr rfl rfl rfl rfl rfl

/-- The instruction a sensor stands at. -/
theorem decode_eq (h : SensorAt f s i p σ) {k : ℕ} {instr : Instr} (hk : σ.next = k)
    (hi : (f.sensorCode s)[k]? = some instr) :
    decode p.program p.pc = (.ok instr, offset (f.sensorCode s) (k + 1)) := by
  rw [h.program, h.pc, hk, f.sensorProgram_eq]
  exact decode_offset hi (f.sensorCode_encodable s _ (List.mem_of_getElem? hi))

theorem instr_eq (h : SensorAt f s i p σ) {instr : Instr} {pc : ℕ}
    (hd : decode p.program p.pc = (.ok instr, pc)) :
    (f.sensorCode s)[σ.next]? = some instr := by
  have hlt : σ.next < (f.sensorCode s).length := h.next_lt
  have hdecode := h.decode_eq rfl (List.getElem?_eq_getElem hlt)
  rw [hd, Prod.mk.injEq, Except.ok.injEq] at hdecode
  rw [List.getElem?_eq_getElem hlt, ← hdecode.1]

/-- After the loads every constant but the target stands in its register. -/
theorem int_eq (h : SensorAt f s i p σ) (hk : 8 ≤ σ.next) {r : Reg} {v : I32}
    (hc : (r, v) ∈ f.loads s) (h3 : r ≠ 3) : p.int r = held v := by
  have hall : (f.loads s).take σ.next = f.loads s := List.take_of_length_le hk
  have hreg := h.loaded (r, v) (by rw [hall]; exact hc) h3
  exact congrArg getSmallint hreg

/-- Going on to another instruction of the loop. -/
theorem goto (h : SensorAt f s i p σ) (hk : 8 ≤ σ.next) {k : ℕ} (hlt : k < 13) :
    SensorAt f s i (p.setPc (offset (f.sensorCode s) k)) { σ with next := k } := by
  have hall : (f.loads s).take σ.next = f.loads s := List.take_of_length_le hk
  exact ⟨h.program, rfl, hlt, h.halted, h.pid,
    fun c hc h3 => h.loaded c (by rw [hall]; exact List.mem_of_mem_take hc) h3, h.target, h.value⟩

theorem loads_regs (f : FlowSpec) (s : Sensor) :
    (f.loads s).map Prod.fst = [0, 1, 2, 3, 4, 5, 6, 8] := rfl

theorem loads_free (f : FlowSpec) (s : Sensor) {c : Reg × I32} (hc : c ∈ f.loads s) :
    c.1 ≠ 7 ∧ c.1 ≠ 9 := by
  have hmem : c.1 ∈ ([0, 1, 2, 3, 4, 5, 6, 8] : List Reg) := by
    rw [← loads_regs f s]
    exact List.mem_map_of_mem hc
  have hall : ∀ r ∈ ([0, 1, 2, 3, 4, 5, 6, 8] : List Reg), r ≠ 7 ∧ r ≠ 9 := by decide
  exact hall c.1 hmem

/-- A new value in the register the sensor sends from. -/
theorem setValue (h : SensorAt f s i p σ) (v : I32) :
    SensorAt f s i (p.setReg 7 (makeSmallint v)) { σ with value := held v } where
  program := h.program
  pc := h.pc
  next_lt := h.next_lt
  halted := h.halted
  pid := h.pid
  loaded c hc h3 := by
    rw [Process.reg_setReg, if_neg (loads_free f s (List.mem_of_mem_take hc)).1.symm]
    exact h.loaded c hc h3
  target := by
    rw [Process.int, Process.reg_setReg, if_neg (by decide)]
    exact h.target
  value := by
    rw [Process.int, Process.reg_setReg, if_pos rfl]
    rfl

/-- A new value in the register of the target pid. -/
theorem setTarget (h : SensorAt f s i p σ) (v : I32) :
    SensorAt f s i (p.setReg 3 (makeSmallint v)) { σ with target := held v } where
  program := h.program
  pc := h.pc
  next_lt := h.next_lt
  halted := h.halted
  pid := h.pid
  loaded c hc h3 := by
    rw [Process.reg_setReg, if_neg (Ne.symm h3)]
    exact h.loaded c hc h3
  target := by
    rw [Process.int, Process.reg_setReg, if_pos rfl]
    rfl
  value := by
    rw [Process.int, Process.reg_setReg, if_neg (by decide)]
    exact h.value

/-- The timestamp stands in a register nothing reads. -/
theorem setClock (h : SensorAt f s i p σ) (t : Term) : SensorAt f s i (p.setReg 9 t) σ where
  program := h.program
  pc := h.pc
  next_lt := h.next_lt
  halted := h.halted
  pid := h.pid
  loaded c hc h3 := by
    rw [Process.reg_setReg, if_neg (loads_free f s (List.mem_of_mem_take hc)).2.symm]
    exact h.loaded c hc h3
  target := by
    rw [Process.int, Process.reg_setReg, if_neg (by decide)]
    exact h.target
  value := by
    rw [Process.int, Process.reg_setReg, if_neg (by decide)]
    exact h.value

/-- Different loads go to different registers, the fourth to the target. -/
theorem load_reg {k : ℕ} {c : Reg × I32} (hc : (f.loads s)[k]? = some c) :
    (∀ d ∈ (f.loads s).take k, c.1 ≠ d.1) ∧ (c.1 = 3 ↔ k = 3) ∧
      (k = 3 → c.2 = BitVec.ofInt 32 f.actPid) := by
  have hlt : k < 8 := (List.getElem?_eq_some_iff.mp hc).1
  have hnodup : ((f.loads s).map Prod.fst).Nodup := by
    rw [loads_regs]
    decide
  refine ⟨fun d hd heq => ?_, ?_⟩
  · obtain ⟨j, hj, hget⟩ := List.mem_take_iff_getElem.mp hd
    obtain ⟨hk, hck⟩ := List.getElem?_eq_some_iff.mp hc
    have hj8 : j < (f.loads s).length := lt_of_lt_of_le hj (Nat.min_le_right _ _)
    have hjk : j < k := lt_of_lt_of_le hj (Nat.min_le_left _ _)
    have hkm : k < ((f.loads s).map Prod.fst).length := by rwa [List.length_map]
    have hjm : j < ((f.loads s).map Prod.fst).length := by rwa [List.length_map]
    have hsame : ((f.loads s).map Prod.fst)[k] = ((f.loads s).map Prod.fst)[j] := by
      rw [List.getElem_map, List.getElem_map, hck, hget, heq]
    exact absurd ((hnodup.getElem_inj_iff).mp hsame) (by omega)
  · rcases k with _ | _ | _ | _ | _ | _ | _ | _ | k
    all_goals first
      | (obtain rfl := Option.some.inj hc; simp)
      | omega

/-- One load of the initial block. -/
theorem load (h : SensorAt f s i p σ) {k : ℕ} {c : Reg × I32} (hk : σ.next = k)
    (hc : (f.loads s)[k]? = some c) :
    SensorAt f s i ((p.setPc (offset (f.sensorCode s) (k + 1))).setReg c.1 (makeSmallint c.2))
      { σ with
        next := k + 1
        target := if k = 3 then held (BitVec.ofInt 32 f.actPid) else σ.target } where
  program := h.program
  pc := rfl
  next_lt := by
    have hlt : k < 8 := (List.getElem?_eq_some_iff.mp hc).1
    show k + 1 < 13
    omega
  halted := h.halted
  pid := h.pid
  loaded d hd h3 := by
    rw [List.take_add_one, hc, Option.toList_some, List.mem_append, List.mem_singleton] at hd
    rcases hd with hd | rfl
    · rw [Process.reg_setReg, if_neg ((load_reg hc).1 d hd)]
      exact h.loaded d (hk ▸ hd) h3
    · rw [Process.reg_setReg, if_pos rfl]
  target := by
    obtain ⟨-, h3, hv⟩ := load_reg hc
    rw [Process.int, Process.reg_setReg]
    by_cases hk3 : k = 3
    · rw [if_pos (h3.mpr hk3), if_pos hk3, hv hk3]
      rfl
    · rw [if_neg fun he => hk3 (h3.mp he), if_neg hk3]
      exact h.target
  value := by
    rw [Process.int, Process.reg_setReg,
      if_neg (loads_free f s (List.mem_of_getElem? hc)).1]
    exact h.value

end SensorAt

/-- Only the eleventh instruction of a sensor is a send. -/
theorem SensorAt.sends {f : FlowSpec} {s : Sensor} {i : Slot} {p : Process} {σ : SensorState}
    {rPid rType rA rB rC rD : Reg} {pc : ℕ} (h : SensorAt f s i p σ)
    (hd : decode p.program p.pc = (.ok (.send rPid rType rA rB rC rD), pc)) : σ.next = 10 := by
  have hsend := h.instr_eq hd
  have hnext := h.next_lt
  have hrest : (f.sensorCode s)[11]? = some s.rest := rfl
  generalize σ.next = k at hsend hnext
  rcases k with _ | _ | _ | _ | _ | _ | _ | _ | _ | _ | _ | _ | _ | k
  all_goals first
    | rfl
    | omega
    | (rw [hrest, Option.some.injEq, Sensor.rest] at hsend; split at hsend <;> cases hsend)
    | simp [FlowSpec.sensorCode, FlowSpec.loads] at hsend

/-! ### Jumps -/

/-- A jump that stays inside the program. -/
theorem jumpTo_ok {p : Process} {z : ℤ} {target : ℕ} (hz : -2 ^ 31 < z ∧ z < 2 ^ 31)
    (htarget : (p.pc : ℤ) + z = target) (hle : target ≤ p.program.length) :
    jumpTo p (BitVec.ofInt 32 z) = (.ok, p.setPc target) := by
  have hint : (BitVec.ofInt 32 z).toInt = z := FlowSpec.ofInt_toInt (by omega) (by omega)
  have htarget' : (p.pc : ℤ) + (BitVec.ofInt 32 z).toInt = target := by rw [hint, htarget]
  have hpos : ¬ (p.pc : ℤ) + (BitVec.ofInt 32 z).toInt < 0 := by omega
  have hin : (p.pc : ℤ) + (BitVec.ofInt 32 z).toInt ≤ p.program.length := by omega
  rw [jumpTo_eq (by omega), if_neg hpos, if_pos hin, htarget']
  rfl

theorem offset_le (code : List Instr) (k : ℕ) : offset code k ≤ (assemble code).length := by
  have hsplit : (assemble code).length =
      (assemble (code.take k)).length + (assemble (code.drop k)).length := by
    rw [← List.length_append, ← assemble_append, List.take_append_drop]
  rw [offset]
  omega

/-! ### The effect of the instructions -/

theorem request_i2cReadReg {bus addr reg : I32} (hb : mbValidateI2cBus bus = true)
    (ha : mbValidateI2cAddr addr = true) (hr : mbValidateU8Value reg = true) :
    bifRequest 3 [bus, addr, reg] = .ok
      (.i2cReadReg (bus.setWidth 8) (addr.setWidth 8) (reg.setWidth 8), readResult) := by
  show checked (mbValidateI2cBus bus && mbValidateI2cAddr addr && mbValidateU8Value reg) _ _ = _
  rw [hb, ha, hr]
  rfl

theorem setWidth_ofInt (z : ℤ) : (BitVec.ofInt 32 z).setWidth 8 = BitVec.ofInt 8 z := by
  apply BitVec.eq_of_toNat_eq
  rw [BitVec.toNat_setWidth, BitVec.toNat_ofInt, BitVec.toNat_ofInt]
  omega

theorem FlowSpec.held_channel (f : FlowSpec) :
    held (BitVec.ofInt 32 f.channel) = BitVec.ofInt 32 f.channel := by
  have h := f.channel_range
  exact held_ofInt (by omega) (by omega)

section Instructions

variable {f : FlowSpec} {self : Slot} {s : Sensor}

/-- The registers the I2C read takes its arguments from. -/
theorem sensor_request {p : Process} {σ : SensorState} (hp : SensorAt f s self p σ)
    (hk : 8 ≤ σ.next) :
    bifRequest 3 ([0, 1, 2].map p.int) = .ok (s.call, readResult) := by
  have hbus := s.bus_range
  have haddr := s.addr_range
  have hreg := s.reg_range
  have h0 : p.int 0 = BitVec.ofInt 32 s.bus := by
    have hc : (f.loads s)[0]? = some (0, BitVec.ofInt 32 s.bus) := rfl
    rw [hp.int_eq hk (List.mem_of_getElem? hc) (by decide), held_ofInt (by omega) (by omega)]
  have h1 : p.int 1 = BitVec.ofInt 32 s.addr := by
    have hc : (f.loads s)[1]? = some (1, BitVec.ofInt 32 s.addr) := rfl
    rw [hp.int_eq hk (List.mem_of_getElem? hc) (by decide), held_ofInt (by omega) (by omega)]
  have h2 : p.int 2 = BitVec.ofInt 32 s.reg := by
    have hc : (f.loads s)[2]? = some (2, BitVec.ofInt 32 s.reg) := rfl
    rw [hp.int_eq hk (List.mem_of_getElem? hc) (by decide), held_ofInt (by omega) (by omega)]
  have hreq := request_i2cReadReg (FlowSpec.inRange_ofInt hbus (by decide) (by decide))
    (FlowSpec.inRange_ofInt haddr (by decide) (by decide))
    (FlowSpec.inRange_ofInt hreg (by decide) (by decide))
  rw [setWidth_ofInt, setWidth_ofInt, setWidth_ofInt] at hreq
  rw [List.map_cons, List.map_cons, List.map_cons, List.map_nil, h0, h1, h2]
  exact hreq

/-- The command of a sensor's `SEND`. -/
theorem sensor_command {p : Process} {σ : SensorState} (hp : SensorAt f s self p σ)
    (hk : 8 ≤ σ.next) : p.command 4 5 7 8 8 = f.command σ.value := by
  have h4 : (f.loads s)[4]? = some (4, 2) := rfl
  have h5 : (f.loads s)[5]? = some (5, BitVec.ofInt 32 f.channel) := rfl
  have h8 : (f.loads s)[7]? = some (8, 0) := rfl
  have htype : held 2 = CommandType.pwmSetDuty.code := by decide
  have hzero : held 0 = 0 := by decide
  rw [Process.command, hp.int_eq hk (List.mem_of_getElem? h4) (by decide),
    hp.int_eq hk (List.mem_of_getElem? h5) (by decide),
    hp.int_eq hk (List.mem_of_getElem? h8) (by decide), hp.value, htype, hzero, f.held_channel,
    FlowSpec.command]

/-- The loads of a sensor program come first. -/
theorem FlowSpec.sensorCode_load (f : FlowSpec) (s : Sensor) {k : ℕ} (hlt : k < 8) :
    ∃ c, (f.loads s)[k]? = some c ∧ (f.sensorCode s)[k]? = some (.constI32 c.1 c.2) := by
  have hlen : k < (f.loads s).length := hlt
  refine ⟨(f.loads s)[k], List.getElem?_eq_getElem hlen, ?_⟩
  rw [FlowSpec.sensorCode, List.getElem?_append_left (by rw [List.length_map]; exact hlt),
    List.getElem?_map, List.getElem?_eq_getElem hlen]
  rfl

namespace SensorAt

variable {p : Process} {σ : SensorState} (hal : Hal) (t : Trace)

theorem run_read (hp : SensorAt f s self p σ) (hk : σ.next = 8) :
    (Instr.callBif 3 [0, 1, 2] 7).run hal true p.pc (p.setPc (offset (f.sensorCode s) 9)) t =
      .ok (.ok, ((p.setPc (offset (f.sensorCode s) 9)).setReg 7
        (makeSmallint (readResult (hal t s.call)))).fail .ok,
        [.hal self.pid s.call (hal t s.call)]) := by
  have hgo := hp.goto (k := 9) (by omega) (by decide)
  have hreq := sensor_request hgo (Nat.le_succ 8)
  have hpid := hp.pid
  have hdst : (7 : Byte).toNat < regCount := by decide
  simp only [Instr.run, dif_pos hdst, hreq, pure_ok, Process.setPc_pid, hpid]
  rfl

theorem run_clock (hp : SensorAt f s self p σ) :
    (Instr.callBif 4 [] 9).run hal true p.pc (p.setPc (offset (f.sensorCode s) 10)) t =
      .ok (.ok, ((p.setPc (offset (f.sensorCode s) 10)).setReg 9
        (makeSmallint (hal t .monotonicMs).ms)).fail .ok,
        [.hal self.pid .monotonicMs (hal t .monotonicMs)]) := by
  have hpid := hp.pid
  have hdst : (9 : Byte).toNat < regCount := by decide
  have hreq : bifRequest 4 [] = .ok (.monotonicMs, HalReply.ms) := rfl
  simp only [Instr.run, dif_pos hdst, List.map_nil, hreq, pure_ok, Process.setPc_pid, hpid]
  rfl

theorem run_sleep (hp : SensorAt f s self p σ) :
    (Instr.sleepMs 6).run hal true p.pc (p.setPc (offset (f.sensorCode s) 12)) t =
      .ok (.ok, { p.setPc (offset (f.sensorCode s) 12) with
        sleepUntilMs := (hal t .monotonicMs).ms + (p.setPc (offset (f.sensorCode s) 12)).int 6
        state := .sleeping }, [.hal self.pid .monotonicMs (hal t .monotonicMs)]) := by
  have hpid := hp.pid
  simp only [Instr.run, if_true, pure_ok, Process.setPc_pid, hpid]

theorem run_jump (hp : SensorAt f s self p σ) :
    (Instr.jmp (BitVec.ofInt 32 s.back)).run hal true p.pc
      (p.setPc (offset (f.sensorCode s) 13)) t =
        .ok (.ok, p.setPc (offset (f.sensorCode s) 8), []) := by
  have hback : -2 ^ 31 < s.back ∧ s.back < 2 ^ 31 := by
    have hlen : (sensorBody s.pollMs).length ≤ 20 := by
      unfold sensorBody
      split <;> decide
    simp only [Sensor.back]
    omega
  have hjump : jumpTo (p.setPc (offset (f.sensorCode s) 13)) (BitVec.ofInt 32 s.back) =
      (.ok, p.setPc (offset (f.sensorCode s) 8)) := by
    refine jumpTo_ok hback (f.sensor_jump s) ?_
    rw [Process.setPc_program, hp.program, f.sensorProgram_eq]
    exact offset_le _ _
  simp only [Instr.run, hjump, pure_ok]

end SensorAt

end Instructions

end MiniBeam
