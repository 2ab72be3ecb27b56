import MiniBeam.Verification.Scheduler.Moves

/-! The reduction counter of the running process. Only `YIELD` writes it among the
instructions, and a round of the loop of `mb_proc_run` adds one. -/

namespace MiniBeam

/-- A `YIELD` stands at the pc. -/
def Process.AtYield (p : Process) : Prop := ∃ pc, decode p.program p.pc = (.ok .yield, pc)

theorem gcRegs_reductions {p p' : Process} (h : gcRegs p = .ok p') :
    p'.reductions = p.reductions := by
  obtain ⟨⟨roots, heap⟩, _, h⟩ := bind_eq_ok.mp h
  cases h
  rfl

theorem allocate_reductions {p p' : Process} {alloc : Process → Except Fault (Term × Heap)}
    {dst : Reg} {rc : Status} (h : allocate p alloc dst = .ok (rc, p')) :
    p'.reductions = p.reductions := by
  obtain ⟨⟨t, heap⟩, _, h⟩ := bind_eq_ok.mp h
  dsimp only at h
  split at h
  · cases h
    rfl
  · obtain ⟨q, hq, h⟩ := bind_eq_ok.mp h
    obtain ⟨⟨t', heap'⟩, _, h⟩ := bind_eq_ok.mp h
    have hgc := gcRegs_reductions hq
    dsimp only at h
    split at h
    · cases h
      exact hgc
    · cases h
      exact hgc

theorem jumpTo_reductions (p : Process) (offset : I32) :
    (jumpTo p offset).2.reductions = p.reductions := by
  unfold jumpTo
  split <;> rfl

section Budget

variable {hal : Hal} {scheduled : Bool} {preOpPc : ℕ} {trace : Trace}

theorem readWord_reductions {p p' : Process} {dst : Reg} {space : List Term} {i : ℕ} {rc : Status}
    {events : List Event}
    (h : (do
      let w ← readWord space i
      return (.ok, p.setReg dst w, [])) = Except.ok (rc, p', events)) :
    p'.reductions = p.reductions := by
  obtain ⟨w, -, h⟩ := bind_eq_ok.mp h
  cases h
  rfl

theorem Instr.run_reductions {p p' : Process} {rc : Status} {events : List Event} {i : Instr}
    (hi : i ≠ .yield) (h : i.run hal scheduled preOpPc p trace = .ok (rc, p', events)) :
    p'.reductions = p.reductions := by
  cases i with
  | yield => exact absurd rfl hi
  | callBif bifId args dst =>
      simp only [Instr.run] at h
      split at h
      · split at h <;> cases h <;> rfl
      · cases h
        rfl
  | recvCmd t a b c d =>
      obtain ⟨popped, -, h⟩ := bind_eq_ok.mp h
      rcases popped with _ | ⟨cmd, mb⟩
      · dsimp only at h
        split at h <;> cases h <;> rfl
      · cases h
        rfl
  | makeTuple dst elems | cons dst hd tl =>
      obtain ⟨⟨rc', q⟩, hq, h⟩ := bind_eq_ok.mp h
      cases h
      exact allocate_reductions hq
  | jmpIfZero r offset =>
      simp only [Instr.run] at h
      split at h
      · cases h
        exact jumpTo_reductions _ _
      · cases h
        rfl
  | jmp offset =>
      cases h
      exact jumpTo_reductions _ _
  | tupleElem dst tuple index =>
      simp only [Instr.run] at h
      split at h
      · obtain ⟨hdr, -, h⟩ := bind_eq_ok.mp h
        split at h
        · cases h
          rfl
        · split at h
          · exact readWord_reductions h
          · cases h
            rfl
      · cases h
        rfl
  | sleepMs r =>
      simp only [Instr.run] at h
      split at h <;> cases h <;> rfl
  | head dst cell | tail dst cell =>
      simp only [Instr.run] at h
      split at h
      · exact readWord_reductions h
      · cases h
        rfl
  | _ =>
      cases h
      rfl

theorem sendFrom_reductions {s s' : Scheduler} {self : Slot} {rPid rType rA rB rC rD : Reg}
    {events : List Event} (h : sendFrom s self rPid rType rA rB rC rD = .ok (s', events)) :
    (s'.proc self).reductions = (s.proc self).reductions := by
  obtain ⟨mb, state, rc, hself⟩ := sendFrom_self h
  rw [hself]
  rfl

theorem execInstr_reductions {m m' : Machine} {rc : Status} {i : Instr} (hi : i ≠ .yield)
    (h : execInstr hal preOpPc m i = .ok (rc, m')) :
    m'.proc.reductions = m.proc.reductions := by
  by_cases hs : i.IsSend
  · obtain ⟨a, b, c, d, e, f, rfl⟩ := hs
    rcases m with ⟨p | ⟨s, self⟩, t⟩
    · cases h
      rfl
    · obtain ⟨⟨after, events⟩, hsend, h⟩ := bind_eq_ok.mp h
      cases h
      exact sendFrom_reductions hsend
  · obtain ⟨p', events, hrun, rfl⟩ := execInstr_ok hal preOpPc hs h
    rw [Machine.proc_emit, Machine.proc_setProc, ← Instr.run_reductions hi hrun]
    split <;> rfl

theorem mbProcStep_reductions {m m' : Machine} {rc : Status} (hy : ¬ m.proc.AtYield)
    (h : mbProcStep hal m = .ok (rc, m')) : m'.proc.reductions = m.proc.reductions := by
  rw [mbProcStep_eq] at h
  split at h
  · cases h
    rfl
  · split at h
    · cases h
      rw [Machine.proc_setProc]
      rfl
    · rename_i i pc hd
      have hi : i ≠ .yield := fun he => hy ⟨pc, he ▸ hd⟩
      have hexec := execInstr_reductions hi h
      rwa [Machine.proc_setProc] at hexec

/-- `YIELD` sets the counter to the limit of a slice, and does nothing else. -/
theorem mbProcStep_yield {m : Machine} {pc : ℕ} (hh : m.proc.halted = false)
    (hd : decode m.proc.program m.proc.pc = (.ok .yield, pc)) :
    mbProcStep hal m =
      .ok (.ok, m.setProc { m.proc.setPc pc with reductions := maxReductions }) := by
  rw [mbProcStep_eq, if_neg (by simp [hh]), hd]
  simp [execInstr, Instr.run]

/-- A step leaves the reduction counter alone, or sets it to the limit of a slice. -/
def Frugal (p p' : Process) : Prop :=
  p'.reductions = p.reductions ∨ p'.reductions = maxReductions

theorem mbProcStep_frugal {m m' : Machine} {rc : Status}
    (h : mbProcStep hal m = .ok (rc, m')) : Frugal m.proc m'.proc := by
  by_cases hy : m.proc.AtYield
  · obtain ⟨pc, hd⟩ := hy
    cases hh : m.proc.halted with
    | true =>
        rw [mbProcStep_eq, if_pos hh] at h
        cases h
        exact .inl rfl
    | false =>
        rw [mbProcStep_yield hh hd] at h
        cases h
        rw [Machine.proc_setProc]
        exact .inr rfl
  · exact .inl (mbProcStep_reductions hy h)

/-- A round that does not end the slice uses up a reduction. -/
theorem runRound_budget {m m' : Machine} (h : runRound hal maxReductions m = .ok (none, m')) :
    m.proc.reductions < maxReductions ∧
      (m'.proc.reductions = m.proc.reductions + 1 ∨ maxReductions < m'.proc.reductions) := by
  unfold runRound at h
  split at h
  · simp at h
  · rename_i hcond
    obtain ⟨⟨rc, m₁⟩, hstep, h⟩ := bind_eq_ok.mp h
    have hf := mbProcStep_frugal hstep
    have hm : m' = m₁.setProc { m₁.proc with reductions := m₁.proc.reductions + 1 } := by
      dsimp only at h
      split at h
      · simp at h
      · split at h
        · simp at h
        · simp only [pure_ok, Except.ok.injEq, Prod.mk.injEq] at h
          exact h.2.symm
    rw [hm, Machine.proc_setProc]
    refine ⟨by omega, ?_⟩
    rcases hf with hf | hf
    · exact .inl (by simp only [hf])
    · exact .inr (by simp only [hf]; omega)

end Budget

end MiniBeam
