import MiniBeam.Verification.Flow.Header
import MiniBeam.Verification.Step.Codec

/-! Bytecode as text: programs and the lists of instructions they are made of stand in
one-to-one correspondence, and the interpreter reads a program as that list. -/

namespace MiniBeam

/-- At most one instruction is encoded at an address. -/
theorem bytesAt_unique {program : List Byte} {pc : ℕ} {i j : Instr} (hi : i.Encodable)
    (hj : j.Encodable) (hat : BytesAt program pc i.encode) (hat' : BytesAt program pc j.encode) :
    j = i := by
  have hdecode := decode_encode hi hat
  rw [decode_encode hj hat'] at hdecode
  exact Except.ok.inj (congrArg Prod.fst hdecode)

/-- A step of any program, well formed or not: the one instruction whose encoding stands at the pc
is executed, with the pc behind it; where no encoding stands, the step is refused. -/
theorem step_reads (hal : Hal) {m : Machine} (hh : m.proc.halted = false) :
    (∃ i, i.Encodable ∧ BytesAt m.proc.program m.proc.pc i.encode ∧
        (∀ j : Instr, j.Encodable → BytesAt m.proc.program m.proc.pc j.encode → j = i) ∧
        mbProcStep hal m =
          execInstr hal m.proc.pc (m.setProc (m.proc.setPc (m.proc.pc + i.encode.length))) i) ∨
      (∀ i : Instr, i.Encodable → ¬ BytesAt m.proc.program m.proc.pc i.encode) ∧
        ∃ e pc, e.isDecodeError ∧
          mbProcStep hal m = .ok (e, m.setProc ((m.proc.setPc pc).fail e)) := by
  rcases hd : decode m.proc.program m.proc.pc with ⟨e | i, pc⟩
  · refine .inr ⟨fun i hi hbytes => ?_, e, pc, ?_, ?_⟩
    · rw [decode_encode hi hbytes] at hd
      cases hd
    · exact (decode_built m.proc.program).error (congrArg Prod.fst hd)
    · rw [mbProcStep_eq, if_neg (by simp [hh]), hd]
  · obtain ⟨hi, hbytes, rfl⟩ := (decode_iff _ _ _ _).mp hd
    exact .inl ⟨i, hi, hbytes, fun j hj hat => bytesAt_unique hi hj hbytes hat,
      mbProcStep_exec hal hh hd⟩

/-- A spawned process executes the `YIELD` of its program. -/
theorem step_reads_yield : ∃ m : Machine, m.proc.program = [0x23] ∧
    mbProcStep (fun _ _ => ⟨0, 0, 0⟩) m =
      execInstr (fun _ _ => ⟨0, 0, 0⟩) m.proc.pc (m.setProc (m.proc.setPc 1)) .yield := by
  let m : Machine := System.machine ⟨(mbSchedSpawn mbSchedInit [0x23]).2, []⟩ 0
  rcases step_reads (fun _ _ => ⟨0, 0, 0⟩) (show m.proc.halted = false from rfl) with
    ⟨i, -, -, hunique, hstep⟩ | ⟨hno, -⟩
  · obtain rfl := hunique .yield trivial ⟨[], rfl⟩
    exact ⟨m, rfl, hstep⟩
  · exact absurd ⟨[], rfl⟩ (hno .yield trivial)

/-- What stands behind a sweep is the encoding of what the sweep found. -/
theorem sweep_bytes {program : List Byte} {n pc : ℕ} {code : List Instr}
    (h : sweep program n pc = some code) (hpc : pc ≤ program.length) :
    program.drop pc = assemble code ∧ ∀ i ∈ code, i.Encodable := by
  induction n generalizing pc code with
  | zero =>
      rw [sweep] at h
      split at h
      · rename_i hend
        cases h
        exact ⟨by rw [hend, List.drop_length]; rfl, by simp⟩
      · cases h
  | succ n ih =>
      rw [sweep] at h
      split at h
      · rename_i hend
        cases h
        exact ⟨by rw [hend, List.drop_length]; rfl, by simp⟩
      · split at h
        · rename_i i next hd
          obtain ⟨rest, hrest, rfl⟩ := Option.map_eq_some_iff.mp h
          obtain ⟨hi, hbytes, rfl⟩ := (decode_iff program pc next i).mp hd
          have hle := hbytes.length_le
          rw [List.length_drop] at hle
          obtain ⟨htail, hcode⟩ := ih hrest (by omega)
          obtain ⟨post, hpost⟩ := hbytes
          have hdrop : program.drop (pc + i.encode.length) = post := by
            rw [← List.drop_drop, ← hpost, List.drop_left]
          refine ⟨?_, List.forall_mem_cons.mpr ⟨hi, hcode⟩⟩
          rw [← hpost, ← hdrop, htail]
          rfl
        · cases h

/-- A program has at most one reading, and it is the list it was assembled from. -/
theorem disassemble_iff (program : List Byte) (code : List Instr) :
    disassemble program = some code ↔ program = assemble code ∧ ∀ i ∈ code, i.Encodable := by
  constructor
  · intro h
    obtain ⟨hbytes, hcode⟩ := sweep_bytes h (Nat.zero_le _)
    exact ⟨hbytes, hcode⟩
  · rintro ⟨rfl, hcode⟩
    exact disassemble_assemble hcode

end MiniBeam
