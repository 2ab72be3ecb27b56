import MiniBeam.Verification.Scheduler.Moves
import Mathlib.Algebra.Group.Int.Defs

/-! Where the pc goes: to the next instruction, to the target of a jump, or back to a
`RECV_CMD` that found no command. -/

namespace MiniBeam

/-! ### Jumps -/

theorem sizeOfI32_of_nonneg {v : I32} (h : 0 ≤ v.toInt) : (sizeOfI32 v : ℤ) = v.toInt := by
  have hext : (v.signExtend 64).toInt = v.toInt := BitVec.toInt_signExtend_of_le (by decide)
  rw [BitVec.toInt_eq_toNat_cond] at hext
  simp only [sizeOfI32]
  split at hext
  · exact hext
  · have hlt := (v.signExtend 64).isLt
    omega

/-- The negation of an offset is its size, except for `INT32_MIN`. -/
theorem sizeOfI32_neg {v : I32} (hneg : v.toInt < 0) (hmin : v.toInt ≠ -2 ^ 31) :
    (sizeOfI32 (-v) : ℤ) = -v.toInt := by
  have hlo := BitVec.le_toInt v
  have hint : (-v).toInt = -v.toInt := by
    rw [BitVec.toInt_neg]
    exact Int.bmod_eq_of_le (by omega) (by omega)
  rw [sizeOfI32_of_nonneg (by omega), hint]

/-- Where a jump goes, as the source has it: a target below the program is refused before the
pc is written, a target above it after. -/
theorem jumpTo_eq {p : Process} {offset : I32} (hmin : offset.toInt ≠ -2 ^ 31) :
    jumpTo p offset =
      if (p.pc : ℤ) + offset.toInt < 0 then (.eof, p)
      else (if (p.pc : ℤ) + offset.toInt ≤ p.program.length then .ok else .eof,
        p.setPc ((p.pc : ℤ) + offset.toInt).toNat) := by
  have hback : (offset.toInt < 0 ∧ sizeOfI32 (-offset) > p.pc) ↔ (p.pc : ℤ) + offset.toInt < 0 := by
    constructor
    · rintro ⟨hneg, hgt⟩
      have hsize := sizeOfI32_neg hneg hmin
      omega
    · intro hlt
      have hneg : offset.toInt < 0 := by omega
      have hsize := sizeOfI32_neg hneg hmin
      exact ⟨hneg, by omega⟩
  have hle : ((p.pc : ℤ) + offset.toInt).toNat ≤ p.program.length ↔
      (p.pc : ℤ) + offset.toInt ≤ p.program.length := by omega
  simp only [jumpTo, hback, hle]

/-- The offset of the jump an instruction makes, if it makes one. -/
def Instr.jumpOffset (p : Process) : Instr → Option I32
  | .jmp offset => some offset
  | .jmpIfZero reg offset => if p.reg reg = makeSmallint 0 then some offset else none
  | _ => none

section Jump

variable {i : Instr} {p : Process} {offset : I32}

theorem Instr.not_isSend_of_jump (h : i.jumpOffset p = some offset) : ¬ i.IsSend := by
  rintro ⟨_, _, _, _, _, _, rfl⟩
  cases h

theorem Instr.run_jump (hal : Hal) (scheduled : Bool) (preOpPc : ℕ) (trace : Trace)
    (h : i.jumpOffset p = some offset) : i.run hal scheduled preOpPc p trace =
      .ok ((jumpTo p offset).1, (jumpTo p offset).2, []) := by
  cases i with
  | jmp o =>
      cases h
      rfl
  | jmpIfZero r o =>
      simp only [Instr.jumpOffset] at h
      split at h
      · rename_i hzero
        cases h
        exact if_pos hzero
      · cases h
  | _ => cases h

end Jump

/-! ### One instruction -/

/-- The program and the pc after an instruction, from the process `p` behind its fetch. -/
inductive Proceeds (preOpPc : ℕ) (p : Process) (i : Instr) (rc : Status) (p' : Process) : Prop
  | next (program : p'.program = p.program) (pc : p'.pc = p.pc) (none : i.jumpOffset p = none)
  | again (program : p'.program = p.program) (pc : p'.pc = preOpPc) (none : i.jumpOffset p = none)
  | jump (offset : I32) (taken : i.jumpOffset p = some offset) (status : rc = (jumpTo p offset).1)
      (program : p'.program = p.program) (pc : p'.pc = (jumpTo p offset).2.pc)

section Run

variable {hal : Hal} {scheduled : Bool} {preOpPc : ℕ} {trace : Trace} {p p' : Process}
  {rc : Status} {events : List Event}

theorem gcRegs_pc (h : gcRegs p = .ok p') : p'.program = p.program ∧ p'.pc = p.pc := by
  obtain ⟨⟨roots, heap⟩, -, h⟩ := bind_eq_ok.mp h
  cases h
  exact ⟨rfl, rfl⟩

theorem allocate_pc {alloc : Process → Except Fault (Term × Heap)} {dst : Reg}
    (h : allocate p alloc dst = .ok (rc, p')) : p'.program = p.program ∧ p'.pc = p.pc := by
  obtain ⟨⟨t, heap⟩, -, h⟩ := bind_eq_ok.mp h
  dsimp only at h
  split at h
  · cases h
    exact ⟨rfl, rfl⟩
  · obtain ⟨q, hq, h⟩ := bind_eq_ok.mp h
    obtain ⟨⟨t', heap'⟩, -, h⟩ := bind_eq_ok.mp h
    have hgc := gcRegs_pc (p := p.setHeap heap) hq
    dsimp only at h
    split at h <;> cases h <;> exact hgc

theorem jumpTo_program (p : Process) (offset : I32) : (jumpTo p offset).2.program = p.program :=
  (quiet_jumpTo p offset).program

theorem Instr.run_proceeds {i : Instr}
    (h : i.run hal scheduled preOpPc p trace = .ok (rc, p', events)) :
    Proceeds preOpPc p i rc p' := by
  cases i with
  | callBif bifId args dst =>
      simp only [Instr.run] at h
      split at h
      · split at h <;> cases h <;> exact .next rfl rfl rfl
      · cases h
        exact .next rfl rfl rfl
  | recvCmd t a b c d =>
      obtain ⟨popped, -, h⟩ := bind_eq_ok.mp h
      rcases popped with _ | ⟨cmd, mb⟩
      · dsimp only at h
        split at h <;> cases h
        · exact .again rfl rfl rfl
        · exact .next (quiet_received p t a b c d _ _).program (received_pc p t a b c d _ _) rfl
      · cases h
        exact .next (quiet_received (p.setMailbox mb) t a b c d _ _).program
          (received_pc (p.setMailbox mb) t a b c d _ _) rfl
  | makeTuple dst elems | cons dst hd tl =>
      obtain ⟨⟨rc', q⟩, hq, h⟩ := bind_eq_ok.mp h
      cases h
      obtain ⟨hprogram, hpc⟩ := allocate_pc hq
      exact .next hprogram hpc rfl
  | jmp offset =>
      cases h
      exact .jump offset rfl rfl (jumpTo_program p offset) rfl
  | jmpIfZero r offset =>
      simp only [Instr.run] at h
      split at h
      · rename_i hzero
        cases h
        exact .jump offset (if_pos hzero) rfl (jumpTo_program p offset) rfl
      · rename_i hzero
        cases h
        exact .next rfl rfl (if_neg hzero)
  | tupleElem dst tuple index =>
      simp only [Instr.run] at h
      split at h
      · obtain ⟨hdr, -, h⟩ := bind_eq_ok.mp h
        split at h
        · cases h
          exact .next rfl rfl rfl
        · split at h
          · obtain ⟨w, -, h⟩ := bind_eq_ok.mp h
            cases h
            exact .next rfl rfl rfl
          · cases h
            exact .next rfl rfl rfl
      · cases h
        exact .next rfl rfl rfl
  | head dst cell | tail dst cell =>
      simp only [Instr.run] at h
      split at h
      · obtain ⟨w, -, h⟩ := bind_eq_ok.mp h
        cases h
        exact .next rfl rfl rfl
      · cases h
        exact .next rfl rfl rfl
  | sleepMs r =>
      simp only [Instr.run] at h
      split at h <;> cases h <;> exact .next rfl rfl rfl
  | _ =>
      cases h
      exact .next rfl rfl rfl

end Run

section Step

variable {hal : Hal} {m m' : Machine} {rc : Status}

/-- The instruction of a machine, as it moves the pc of the process that runs it. -/
theorem execInstr_proceeds {i : Instr} {preOpPc : ℕ}
    (h : execInstr hal preOpPc m i = .ok (rc, m')) : Proceeds preOpPc m.proc i rc m'.proc := by
  by_cases hs : i.IsSend
  · obtain ⟨rPid, t, a, b, c, d, rfl⟩ := hs
    rcases m with ⟨p | ⟨s, self⟩, trace⟩
    · cases h
      exact .next rfl rfl rfl
    · obtain ⟨⟨after, events⟩, hsend, h⟩ := bind_eq_ok.mp h
      cases h
      obtain ⟨mb, state, code, hproc⟩ := sendFrom_self hsend
      have hproc' : (⟨.sched after self, trace ++ events⟩ : Machine).proc = _ := hproc
      exact .next (by rw [hproc']; rfl) (by rw [hproc']; rfl) rfl
  · obtain ⟨p', events, hrun, rfl⟩ := execInstr_ok hal preOpPc hs h
    have hproceeds := Instr.run_proceeds hrun
    rw [Machine.proc_emit, Machine.proc_setProc]
    split
    · exact hproceeds
    · cases hproceeds with
      | next program pc none => exact .next program pc none
      | again program pc none => exact .again program pc none
      | jump offset taken status program pc => exact .jump offset taken status program pc

/-- The ways a step moves the pc. -/
inductive Advance (m : Machine) (rc : Status) (m' : Machine) : Prop
  | stopped (halted : m.proc.halted = true) (same : m' = m)
  | refused (e : Status) (pc : ℕ) (halted : m.proc.halted = false)
      (decoded : decode m.proc.program m.proc.pc = (.error e, pc)) (status : rc = e)
      (program : m'.proc.program = m.proc.program) (moved : m'.proc.pc = pc)
  | ran (i : Instr) (pc : ℕ) (halted : m.proc.halted = false)
      (decoded : decode m.proc.program m.proc.pc = (.ok i, pc))
      (proceeds : Proceeds m.proc.pc (m.proc.setPc pc) i rc m'.proc)

/-- A step keeps the program. -/
theorem Advance.program (h : Advance m rc m') : m'.proc.program = m.proc.program := by
  cases h with
  | stopped _ same => exact same ▸ rfl
  | refused _ _ _ _ _ program _ => exact program
  | ran _ _ _ _ proceeds =>
      cases proceeds with
      | next program _ _ => exact program
      | again program _ _ => exact program
      | jump _ _ _ program _ => exact program

theorem mbProcStep_advance (h : mbProcStep hal m = .ok (rc, m')) : Advance m rc m' := by
  rw [mbProcStep_eq] at h
  split at h
  · rename_i hhalted
    cases h
    exact .stopped hhalted rfl
  · rename_i hhalted
    have hrunning : m.proc.halted = false := by simpa using hhalted
    split at h
    · rename_i e pc hd
      cases h
      exact .refused rc pc hrunning hd rfl (by rw [Machine.proc_setProc]; rfl)
        (by rw [Machine.proc_setProc]; rfl)
    · rename_i i pc hd
      have hproceeds := execInstr_proceeds h
      rw [Machine.proc_setProc] at hproceeds
      exact .ran i pc hrunning hd hproceeds

end Step

end MiniBeam
