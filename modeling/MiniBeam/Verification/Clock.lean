import MiniBeam.Verification.Commands
import MiniBeam.Verification.Recorded
import Mathlib.Data.BitVec

/-! The time that programs see. `MONOTONIC_MS` puts the clock of the HAL into a register, which
holds 28 bits of it. -/

namespace MiniBeam

/-- A `MONOTONIC_MS` call: the clock of the HAL, and the register after the call. -/
structure Reading where
  clock : BitVec 32
  term : Term
  deriving DecidableEq

namespace Reading

/-- The time of the call, in milliseconds. -/
def time (r : Reading) : ℤ := r.clock.toNat

/-- The integer that the register reads as. -/
def value (r : Reading) : ℤ := (getSmallint r.term).toInt

end Reading

/-- The register that a `MONOTONIC_MS` call at the pc fills. With arguments or without a valid
destination the call is refused. -/
def Process.clockCall? (p : Process) : Option Reg :=
  match (decode p.program p.pc).1 with
  | .ok (.callBif bifId [] dst) =>
    if h : Bif.ofCode? bifId = some .monotonicMs ∧ dst.toNat < regCount then some ⟨dst.toNat, h.2⟩
    else none
  | _ => none

/-- The call that a round of `mb_proc_run` makes, if it executes one. -/
def readings (hal : Hal) (maxSteps : ℕ) (m : Machine) : List Reading :=
  if m.proc.halted ∨ m.proc.reductions ≥ maxSteps then []
  else match m.proc.clockCall?, mbProcStep hal m with
    | some dst, .ok (_, m') => [⟨(hal m.trace .monotonicMs).ms, m'.proc.reg dst⟩]
    | _, _ => []

/-- The `MONOTONIC_MS` calls of a run of the scheduler or of a VM, up to some point of it. -/
def ClockLog (hal : Hal) (log : List Reading) : Prop :=
  (∃ point, SchedRecorded hal (readings hal) point log) ∨
    ∃ vm₀ point, VmRecorded hal (readings hal) vm₀ point log

/-- The clock does not go back between the calls, and stays below 2^31. -/
structure SteadyClock (log : List Reading) : Prop where
  ordered : log.Pairwise fun r r' => r.time ≤ r'.time
  bounded : ∀ r ∈ log, r.time < 2 ^ 31

/-- Every `SUB` of a register that holds `x` and one that holds `y` leaves the integer `z`. -/
def Subtracts (x y : Term) (z : ℤ) : Prop :=
  ∀ hal m dst a b next, m.proc.halted = false →
    decode m.proc.program m.proc.pc = (.ok (.sub dst a b), next) →
    m.proc.reg a = x → m.proc.reg b = y →
    ∃ m', mbProcStep hal m = .ok (.ok, m') ∧ (m'.proc.int dst).toInt = z

/-- Programs see the time: each call reads as the clock, a later one as no smaller integer, and
the difference is the time that went by, while that is below 2^27. -/
structure TimeKept (log : List Reading) : Prop where
  exact : ∀ r ∈ log, r.value = r.time
  ordered : log.Pairwise fun r r' => r.value ≤ r'.value
  elapsed : log.Pairwise fun r r' => r'.time - r.time < 2 ^ 27 →
    Subtracts r'.term r.term (r'.time - r.time)

/-! ### One instruction -/

theorem Process.clockCall?_eq {p : Process} {dst : Reg} (h : p.clockCall? = some dst) :
    ∃ bifId next, decode p.program p.pc = (.ok (.callBif bifId [] (regByte dst)), next) ∧
      Bif.ofCode? bifId = some .monotonicMs := by
  unfold Process.clockCall? at h
  split at h
  · rename_i bifId dst' hd
    split at h
    · rename_i hb
      cases h
      have hdst : regByte ⟨dst'.toNat, hb.2⟩ = dst' := by
        apply BitVec.eq_of_toNat_eq
        rw [regByte_toNat]
      rw [hdst]
      exact ⟨bifId, _, Prod.ext hd rfl, hb.1⟩
    · cases h
  · cases h

/-- The call succeeds, and stores what the clock said. -/
theorem mbProcStep_clockCall (hal : Hal) {m : Machine} {dst : Reg} (hh : m.proc.halted = false)
    (hcall : m.proc.clockCall? = some dst) :
    ∃ m', mbProcStep hal m = .ok (.ok, m') ∧
      m'.proc.reg dst = makeSmallint (hal m.trace .monotonicMs).ms ∧
      m'.trace = m.trace ++ [.hal m.proc.pid .monotonicMs (hal m.trace .monotonicMs)] := by
  obtain ⟨bifId, next, hd, hb⟩ := Process.clockCall?_eq hcall
  have hsend : ¬ (Instr.callBif bifId [] (regByte dst)).IsSend := Instr.not_isSend nofun
  have hdst : (regByte dst).toNat < regCount := by
    rw [regByte_toNat]
    exact dst.isLt
  have hreg : (⟨(regByte dst).toNat, hdst⟩ : Reg) = dst := Fin.ext (regByte_toNat dst)
  have hrequest : bifRequest bifId [] = .ok (.monotonicMs, HalReply.ms) := by
    rw [bifRequest, hb]
    rfl
  rw [mbProcStep_exec hal hh hd, execInstr_run hal _ hsend, Machine.proc_setProc, Instr.run,
    dif_pos hdst, List.map_nil, hrequest, hreg]
  refine ⟨_, rfl, ?_, rfl⟩
  rw [if_pos rfl, Machine.proc_emit, Machine.proc_setProc, Process.reg_fail, Process.reg_setReg,
    if_pos rfl]
  rfl

/-- A `SUB` leaves the difference of what its registers read as, in 28 bits. -/
theorem mbProcStep_sub (hal : Hal) {m : Machine} {dst a b : Reg} {next : ℕ}
    (hh : m.proc.halted = false)
    (hd : decode m.proc.program m.proc.pc = (.ok (.sub dst a b), next)) :
    ∃ m', mbProcStep hal m = .ok (.ok, m') ∧
      m'.proc.int dst = held (m.proc.int a - m.proc.int b) := by
  have hsend : ¬ (Instr.sub dst a b).IsSend := Instr.not_isSend nofun
  rw [mbProcStep_exec hal hh hd, execInstr_run hal _ hsend, Machine.proc_setProc, Instr.run]
  refine ⟨_, rfl, ?_⟩
  rw [if_pos rfl, Machine.proc_emit, Machine.proc_setProc, Process.int, Process.reg_setReg,
    if_pos rfl]
  rfl

/-! ### Runs -/

theorem readings_term (hal : Hal) (maxSteps : ℕ) (m : Machine) :
    ∀ r ∈ readings hal maxSteps m, r.term = makeSmallint r.clock := by
  intro r hr
  unfold readings at hr
  split at hr
  · cases hr
  · rename_i hrun
    have hh : m.proc.halted = false := by
      cases hhalted : m.proc.halted with
      | false => rfl
      | true => exact absurd (.inl hhalted) hrun
    cases hcall : m.proc.clockCall? with
    | none =>
        rw [hcall] at hr
        cases hr
    | some dst =>
        obtain ⟨m', hstep, hreg, -⟩ := mbProcStep_clockCall hal hh hcall
        rw [hcall, hstep] at hr
        cases List.mem_singleton.mp hr
        exact hreg

/-- In every run, each call stored what the clock said. -/
theorem ClockLog.term {hal : Hal} {log : List Reading} (h : ClockLog hal log) :
    ∀ r ∈ log, r.term = makeSmallint r.clock := by
  rcases h with ⟨point, hrun⟩ | ⟨vm₀, point, hrun⟩
  · exact hrun.forall_record (readings_term hal)
  · exact hrun.forall_record (readings_term hal)

/-! ### Twenty-eight bits of a clock -/

section Bits

variable {r r' : Reading}

theorem Reading.clock_toInt (h : r.time < 2 ^ 31) : r.clock.toInt = r.time := by
  have hcond := BitVec.toInt_eq_toNat_cond r.clock
  rw [Reading.time] at h ⊢
  split at hcond <;> omega

theorem Reading.value_eq_bmod (hterm : r.term = makeSmallint r.clock) (h : r.time < 2 ^ 31) :
    r.value = r.time.bmod (2 ^ 28) := by
  rw [Reading.value, hterm, ← r.clock_toInt h]
  exact held_toInt r.clock

/-- A call reads as the clock below 2^27 only. -/
theorem Reading.value_eq_time_iff (hterm : r.term = makeSmallint r.clock) (h : r.time < 2 ^ 31) :
    r.value = r.time ↔ r.time < 2 ^ 27 := by
  rw [r.value_eq_bmod hterm h]
  constructor
  · intro heq
    have hlt := Int.bmod_lt (x := r.time) (m := 2 ^ 28) (by decide)
    rw [heq] at hlt
    exact hlt
  · intro hlt
    have hnonneg : 0 ≤ r.time := Int.natCast_nonneg _
    exact Int.bmod_eq_of_le (by omega) (by omega)

/-- The difference of two registers is right modulo 2^28, whatever they read as. -/
theorem subtracts_held (v w : I32) :
    Subtracts (makeSmallint v) (makeSmallint w) ((v.toInt - w.toInt).bmod (2 ^ 28)) := by
  intro hal m dst a b next hh hd ha hb
  obtain ⟨m', hstep, hdiff⟩ := mbProcStep_sub hal hh hd
  refine ⟨m', hstep, ?_⟩
  have hx : m.proc.int a = held v := congrArg getSmallint ha
  have hy : m.proc.int b = held w := congrArg getSmallint hb
  calc (m'.proc.int dst).toInt
      = ((held v - held w).toInt).bmod (2 ^ 28) := by rw [hdiff, hx, hy, held_toInt]
    _ = ((held v).toInt - (held w).toInt).bmod (2 ^ 28) := by
        rw [BitVec.toInt_sub, Int.bmod_bmod_of_dvd (by decide)]
    _ = (v.toInt - w.toInt).bmod (2 ^ 28) := by rw [held_toInt, held_toInt, ← Int.sub_bmod]

/-- The time between two calls, at any clock. -/
theorem Reading.subtracts (hterm : r.term = makeSmallint r.clock)
    (hterm' : r'.term = makeSmallint r'.clock) (h : r.time < 2 ^ 31) (h' : r'.time < 2 ^ 31)
    (hle : r.time ≤ r'.time) (hlt : r'.time - r.time < 2 ^ 27) :
    Subtracts r'.term r.term (r'.time - r.time) := by
  have hsub := subtracts_held r'.clock r.clock
  have hbmod : (r'.time - r.time).bmod (2 ^ 28) = r'.time - r.time :=
    Int.bmod_eq_of_le (by omega) (by omega)
  rwa [r'.clock_toInt h', r.clock_toInt h, hbmod, ← hterm, ← hterm'] at hsub

end Bits

/-- In every run with a steady clock, programs see the time exactly when the clock is below 2^27
at each of their calls. -/
theorem time_kept_iff {hal : Hal} {log : List Reading} (hrun : ClockLog hal log)
    (hclock : SteadyClock log) : TimeKept log ↔ ∀ r ∈ log, r.time < 2 ^ 27 := by
  have hiff : ∀ r ∈ log, (r.value = r.time ↔ r.time < 2 ^ 27) := fun r hr =>
    r.value_eq_time_iff (hrun.term r hr) (hclock.bounded r hr)
  refine ⟨fun h r hr => (hiff r hr).mp (h.exact r hr), fun h => ?_⟩
  have hexact : ∀ r ∈ log, r.value = r.time := fun r hr => (hiff r hr).mpr (h r hr)
  refine ⟨hexact, ?_, ?_⟩
  · apply hclock.ordered.imp_of_mem
    intro r r' hr hr' hle
    rw [hexact r hr, hexact r' hr']
    exact hle
  · apply hclock.ordered.imp_of_mem
    intro r r' hr hr' hle hlt
    exact Reading.subtracts (hrun.term r hr) (hrun.term r' hr') (hclock.bounded r hr)
      (hclock.bounded r' hr') hle hlt

/-- Two calls, with their results in registers 0 and 1. -/
def twoCalls : List Byte := [0x10, 4, 0, 0, 0x10, 4, 0, 1]

/-- A clock that starts at a given time and goes on by one millisecond with every event. -/
def tickingHal (start : BitVec 32) : Hal := fun t _ => ⟨0, 0, start + BitVec.ofNat 32 t.length⟩

theorem twoCalls_clockLog {start : BitVec 32} {log : List Reading}
    (h : recordRounds (tickingHal start) (readings (tickingHal start)) 3 2
      ⟨.compat (mbVmToProc (mbVmInit twoCalls)), []⟩ = .ok log) :
    ClockLog (tickingHal start) log := by
  have hstart : VmRecorded (tickingHal start) (readings (tickingHal start)) (mbVmInit twoCalls)
      (.running (mbVmInit twoCalls) ⟨.compat (mbVmToProc (mbVmInit twoCalls)), []⟩) [] :=
    LabelledRun.nil.snoc (.enter _ _)
  obtain ⟨m, hrun⟩ := hstart.rounds h
  exact .inr ⟨_, _, hrun⟩

def earlyLog : List Reading := [⟨5, makeSmallint 5⟩, ⟨6, makeSmallint 6⟩]

theorem time_kept_iff_early : ClockLog (tickingHal 5) earlyLog ∧ SteadyClock earlyLog ∧
    (TimeKept earlyLog ↔ ∀ r ∈ earlyLog, r.time < 2 ^ 27) := by
  have hlog : ClockLog (tickingHal 5) earlyLog := twoCalls_clockLog (by decide +kernel)
  have hclock : SteadyClock earlyLog := ⟨List.pairwise_pair.mpr (by decide), by decide⟩
  exact ⟨hlog, hclock, time_kept_iff hlog hclock⟩

/-- From 2^27 milliseconds on, about 37 hours, the clock reads as negative. -/
theorem time_goes_back : ∃ r r' : Reading, ClockLog (tickingHal (2 ^ 27 - 1)) [r, r'] ∧
    SteadyClock [r, r'] ∧ r.time = 2 ^ 27 - 1 ∧ r.value = 2 ^ 27 - 1 ∧ r'.time = 2 ^ 27 ∧
    r'.value = -2 ^ 27 ∧ ¬ TimeKept [r, r'] := by
  refine ⟨⟨2 ^ 27 - 1, makeSmallint (2 ^ 27 - 1)⟩, ⟨2 ^ 27, makeSmallint (2 ^ 27)⟩,
    twoCalls_clockLog (by decide +kernel), ⟨List.pairwise_pair.mpr (by decide), by decide⟩,
    by decide, by decide, by decide, by decide, fun h => ?_⟩
  have hle := List.pairwise_pair.mp h.ordered
  exact absurd hle (by decide)

end MiniBeam
