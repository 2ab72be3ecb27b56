import MiniBeam.Verification.Process.Safety
import MiniBeam.Verification.Step.Control

/-! Jumps. A jump below the program is refused and leaves the pc behind the instruction; a jump
above it is refused after the pc was written. -/

namespace MiniBeam

/-- The address a jump aims at: the address after the instruction plus the offset. -/
def jumpTarget (next : ℕ) (offset : I32) : ℤ := next + offset.toInt

/-- A jump goes to its target or is refused, and its signed arithmetic does not overflow: the
negation of a negative offset is an `int32_t`, and the sum, formed unless it is negative, is an
`int64_t`. -/
structure JumpsInside (size next : ℕ) (offset : I32) (rc : Status) (pc : ℕ) : Prop where
  accepted : 0 ≤ jumpTarget next offset → jumpTarget next offset ≤ size →
    rc = .ok ∧ (pc : ℤ) = jumpTarget next offset
  refused : ¬ (0 ≤ jumpTarget next offset ∧ jumpTarget next offset ≤ size) →
    rc = .eof ∧ pc = next
  negation : offset.toInt < 0 → -offset.toInt < 2 ^ 31
  sum : 0 ≤ jumpTarget next offset → jumpTarget next offset < 2 ^ 63

/-- The condition on a jump: its target is not past the end, and its offset can be negated. -/
structure JumpFits (size next : ℕ) (offset : I32) : Prop where
  below : jumpTarget next offset ≤ size
  negatable : offset.toInt ≠ -2 ^ 31
  int64 : jumpTarget next offset < 2 ^ 63

theorem jumpTo_inside_iff {p : Process} {offset : I32} (hpc : p.pc ≤ p.program.length) :
    JumpsInside p.program.length p.pc offset (jumpTo p offset).1 (jumpTo p offset).2.pc ↔
      JumpFits p.program.length p.pc offset := by
  constructor
  · intro h
    have hmin : offset.toInt ≠ -2 ^ 31 := by
      intro he
      have := h.negation (by omega)
      omega
    have hbelow : jumpTarget p.pc offset ≤ p.program.length := by
      apply not_lt.mp
      intro hlt
      -- the pc was written before the target is refused
      have hmoved : (jumpTo p offset).2.pc = (jumpTarget p.pc offset).toNat := by
        rw [jumpTo_eq hmin, if_neg (by simp only [jumpTarget] at hlt; omega)]
        rfl
      have hstay := (h.refused fun hin => by omega).2
      omega
    refine ⟨hbelow, hmin, ?_⟩
    by_cases hneg : 0 ≤ jumpTarget p.pc offset
    · exact h.sum hneg
    · omega
  · intro h
    have hneg := BitVec.le_toInt offset
    have hmin := h.negatable
    have hbelow := h.below
    rw [jumpTo_eq hmin]
    simp only [jumpTarget] at hbelow
    by_cases hlt : (p.pc : ℤ) + offset.toInt < 0
    · rw [if_pos hlt]
      exact ⟨fun hpos => by simp only [jumpTarget] at hpos; omega, fun _ => ⟨rfl, rfl⟩,
        fun _ => by omega, fun hpos => by simp only [jumpTarget] at hpos; omega⟩
    · rw [if_neg hlt, if_pos hbelow]
      refine ⟨fun _ _ => ⟨rfl, ?_⟩, fun hout => absurd ⟨not_lt.mp hlt, hbelow⟩ hout,
        fun _ => by omega, fun _ => h.int64⟩
      simp only [jumpTarget, Process.setPc_pc]
      omega

/-- The condition on the state before a step: a jump it makes fits. -/
def Process.JumpsFit (p : Process) : Prop :=
  p.halted = false → ∀ i next offset, decode p.program p.pc = (.ok i, next) →
    i.jumpOffset p = some offset → JumpFits p.program.length next offset

theorem decode_le_length {program : List Byte} {pc next : ℕ} {i : Instr}
    (h : decode program pc = (.ok i, next)) : next ≤ program.length := by
  obtain ⟨op, hop, -⟩ := decode_opcode h
  obtain ⟨hlt, -⟩ := List.getElem?_eq_some_iff.mp hop
  have hbound := ((decode_built program).bound pc).2 (Nat.le_of_lt hlt)
  rwa [h] at hbound

/-- A step that makes a jump returns the status of the jump and leaves the pc where it says. -/
theorem mbProcStep_jump (hal : Hal) {m : Machine} {i : Instr} {next : ℕ} {offset : I32}
    (hh : m.proc.halted = false) (hd : decode m.proc.program m.proc.pc = (.ok i, next))
    (hjump : i.jumpOffset m.proc = some offset) :
    ∃ m', mbProcStep hal m = .ok ((jumpTo (m.proc.setPc next) offset).1, m') ∧
      m'.proc.pc = (jumpTo (m.proc.setPc next) offset).2.pc := by
  have hjump' : i.jumpOffset (m.proc.setPc next) = some offset := by
    cases i <;> exact hjump
  rw [mbProcStep_exec hal hh hd, execInstr_run hal _ (Instr.not_isSend_of_jump hjump),
    Machine.proc_setProc, Instr.run_jump _ _ _ _ hjump']
  refine ⟨_, rfl, ?_⟩
  rw [Machine.proc_emit, Machine.proc_setProc]
  split <;> rfl

theorem ProcReached.pc_le {hal : Hal} {p : Process} (h : ProcReached hal Process.JumpsFit p) :
    p.pc ≤ p.program.length := by
  induction h with
  | init pid program => exact Nat.zero_le _
  | outside _ _ _ _ ih => exact ih
  | @step m m' rc _ meets run ih =>
      cases mbProcStep_advance run with
      | stopped _ same => exact same ▸ ih
      | refused e pc _ hd _ hprogram hmoved =>
          have hbound := ((decode_built m.proc.program).bound m.proc.pc).2 ih
          rw [hd] at hbound
          rw [hprogram, hmoved]
          exact hbound
      | ran i next hhalted hd hproceeds =>
          have hnext := decode_le_length hd
          cases hproceeds with
          | next hprogram hpc => rwa [hprogram, hpc]
          | again hprogram hpc => rwa [hprogram, hpc]
          | jump offset htaken hrc hprogram hpc =>
              have hfits := meets hhalted i next offset hd (by cases i <;> exact htaken)
              have hbelow := hfits.below
              rw [hprogram, hpc, jumpTo_eq hfits.negatable]
              simp only [jumpTarget] at hbelow
              split
              · exact hnext
              · simp only [Process.setPc_pc, Process.setPc_program]
                omega

/-- A jump goes to its target, or is refused in its place, exactly when the target is not past
the end of the program and the offset can be negated; and the pc stays inside the program in
every run whose jumps do so. -/
theorem jumps_inside_iff (hal : Hal) :
    (∀ (m : Machine) (i : Instr) (next : ℕ) (offset : I32), m.proc.halted = false →
      decode m.proc.program m.proc.pc = (.ok i, next) → i.jumpOffset m.proc = some offset →
      ∃ rc m', mbProcStep hal m = .ok (rc, m') ∧
        (JumpsInside m.proc.program.length next offset rc m'.proc.pc ↔
          JumpFits m.proc.program.length next offset)) ∧
    ∀ p, ProcReached hal Process.JumpsFit p → p.pc ≤ p.program.length := by
  refine ⟨fun m i next offset hh hd hjump => ?_, fun p h => h.pc_le⟩
  obtain ⟨m', hstep, hpc⟩ := mbProcStep_jump hal hh hd hjump
  refine ⟨_, m', hstep, ?_⟩
  rw [hpc]
  exact jumpTo_inside_iff (p := m.proc.setPc next) (decode_le_length hd)

/-- A `NOP` and a `JMP` back to it. -/
def nopLoop : List Byte := [0x00, 0x30, 0xFA, 0xFF, 0xFF, 0xFF]

/-- The jump back fits: it goes to its target, and the run it belongs to stays inside. -/
theorem jumps_inside_iff_nopLoop : ∃ m₁ m₂,
    mbProcStep idleHal (alone nopLoop) = .ok (.ok, m₁) ∧
    mbProcStep idleHal m₁ = .ok (.ok, m₂) ∧ JumpFits nopLoop.length 6 (-6) ∧
    JumpsInside nopLoop.length 6 (-6) .ok m₂.proc.pc ∧ m₂.proc.pc = 0 ∧
    ProcReached idleHal Process.JumpsFit m₂.proc ∧ m₂.proc.pc ≤ m₂.proc.program.length := by
  obtain ⟨⟨rc₁, m₁⟩, hstep₁, hend₁⟩ := exists_ok_of_map (mbProcStep idleHal (alone nopLoop))
    (fun r => (r.1, decide (r.2.proc.halted = false ∧ r.2.proc.program = nopLoop ∧
      r.2.proc.pc = 1)))
    (.ok, true) (by decide +kernel)
  simp only [Prod.mk.injEq, decide_eq_true_eq] at hend₁
  obtain ⟨rfl, hhalted, hprogram, hpc⟩ := hend₁
  have hnop : decode nopLoop 0 = (.ok .nop, 1) := rfl
  have hjmp : decode nopLoop 1 = (.ok (.jmp (-6)), 6) := rfl
  have hfits : JumpFits nopLoop.length 6 (-6) := ⟨by decide, by decide, by decide⟩
  have hd : decode m₁.proc.program m₁.proc.pc = (.ok (.jmp (-6)), 6) := by
    rw [hprogram, hpc, hjmp]
  obtain ⟨hjumps, hinside⟩ := jumps_inside_iff idleHal
  obtain ⟨rc₂, m₂, hstep₂, hiff⟩ := hjumps m₁ (.jmp (-6)) 6 (-6) hhalted hd rfl
  rw [hprogram] at hiff
  have hjump := hiff.mpr hfits
  obtain ⟨rfl, hback⟩ := hjump.accepted (by decide) (by decide)
  have hpc₂ : m₂.proc.pc = 0 := by
    have htarget : jumpTarget 6 (-6) = 0 := by decide
    omega
  have hreached₁ : ProcReached idleHal Process.JumpsFit m₁.proc := by
    refine .step (.init 1 nopLoop) ?_ hstep₁
    intro _ i next offset hi hoffset
    have hi' : decode nopLoop 0 = (.ok i, next) := hi
    rw [hnop] at hi'
    cases hi'
    cases hoffset
  have hreached₂ : ProcReached idleHal Process.JumpsFit m₂.proc := by
    refine .step hreached₁ ?_ hstep₂
    intro _ i next offset hi hoffset
    rw [hd] at hi
    cases hi
    cases hoffset
    rw [hprogram]
    exact hfits
  exact ⟨m₁, m₂, hstep₁, hstep₂, hfits, hjump, hpc₂, hreached₂, hinside m₂.proc hreached₂⟩

/-- `JMP` one byte past the end: the refused target stands in the pc. -/
theorem jump_past_end :
    ∃ m', mbProcStep idleHal (alone [0x30, 1, 0, 0, 0]) = .ok (.eof, m') ∧
      ProcReached idleHal (fun _ => True) m'.proc ∧ m'.proc.program.length < m'.proc.pc ∧
      ¬ JumpsInside m'.proc.program.length 5 1 .eof m'.proc.pc := by
  have hrun : (mbProcStep idleHal (alone [0x30, 1, 0, 0, 0])).map
      (fun r => (r.1, r.2.proc.pc, r.2.proc.program.length)) = .ok (.eof, 6, 5) := by
    decide +kernel
  obtain ⟨⟨rc, m'⟩, hstep, hm⟩ := exists_ok_of_map _ _ _ hrun
  simp only [Prod.mk.injEq] at hm
  obtain ⟨rfl, hpc, hlen⟩ := hm
  refine ⟨m', hstep, .step (.init 1 [0x30, 1, 0, 0, 0]) trivial hstep, by omega, fun h => ?_⟩
  have hstay := (h.refused (by rw [hlen]; decide)).2
  omega

end MiniBeam
