import MiniBeam.Verification.Heap.Terms
import MiniBeam.Verification.Step.Effect

/-! Failing instructions. Every error exit comes before any register write, mailbox access,
push or HAL call; an instruction that runs out of heap has collected once. -/

namespace MiniBeam

/-! ### Allocations without room -/

/-- An allocator that does not change a heap without room. -/
def KeepsFull (alloc : Process → Except Fault (Term × Heap)) : Prop :=
  ∀ p heap, alloc p = .ok (0, heap) → heap = p.heap

theorem makeTuple_keepsFull (elems : List Term) :
    KeepsFull fun q => mbHeapMakeTuple q.heap elems elems.length := by
  intro p heap h
  simp only [mbHeapMakeTuple] at h
  split at h
  · cases h
    rfl
  · obtain ⟨_, -, h⟩ := bind_eq_ok.mp h
    obtain ⟨_, -, h⟩ := bind_eq_ok.mp h
    simp only [pure_ok, Except.ok.injEq, Prod.mk.injEq] at h
    exact absurd h.1 (makeBoxed_ne_zero _)

theorem cons_keepsFull (hd tl : Reg) :
    KeepsFull fun q => mbHeapCons q.heap (q.reg hd) (q.reg tl) := by
  intro p heap h
  simp only [mbHeapCons] at h
  split at h
  · cases h
    rfl
  · obtain ⟨_, -, h⟩ := bind_eq_ok.mp h
    obtain ⟨_, -, h⟩ := bind_eq_ok.mp h
    simp only [pure_ok, Except.ok.injEq, Prod.mk.injEq] at h
    exact absurd h.1 (makeCons_ne_zero _)

/-- What an instruction that fails leaves of the process it ran on. -/
inductive Failed (p : Process) : Status → Process → Prop
  | kept (rc : Status) (hrc : rc ≠ .heapOom) (pc : ℕ) : Failed p rc (p.setPc pc)
  | collected {q : Process} (gc : gcRegs p = .ok q) : Failed p .heapOom q

theorem Failed.same {p : Process} {rc : Status} (hrc : rc ≠ .heapOom) : Failed p rc p :=
  .kept rc hrc p.pc

theorem allocate_failed {p p' : Process} {alloc : Process → Except Fault (Term × Heap)}
    {dst : Reg} {rc : Status} (hfull : KeepsFull alloc)
    (h : allocate p alloc dst = .ok (rc, p')) (hrc : rc ≠ .ok) : Failed p rc p' := by
  obtain ⟨⟨t, heap⟩, hfirst, h⟩ := bind_eq_ok.mp h
  dsimp only at h
  split at h
  · cases h
    exact absurd rfl hrc
  · rename_i hzero
    obtain rfl : t = 0 := not_not.mp hzero
    obtain rfl := hfull p heap hfirst
    obtain ⟨q, hq, h⟩ := bind_eq_ok.mp h
    obtain ⟨⟨t', heap'⟩, hretry, h⟩ := bind_eq_ok.mp h
    dsimp only at h
    split at h
    · cases h
      exact absurd rfl hrc
    · rename_i hzero'
      obtain rfl : t' = 0 := not_not.mp hzero'
      obtain rfl := hfull q heap' hretry
      cases h
      exact .collected hq

theorem jumpTo_failed {p : Process} {offset : I32} (h : (jumpTo p offset).1 ≠ .ok) :
    Failed p (jumpTo p offset).1 (jumpTo p offset).2 := by
  unfold jumpTo at h ⊢
  split
  · exact .same nofun
  · rename_i hback
    rw [if_neg hback] at h
    dsimp only at h ⊢
    split
    · rename_i hin
      exact absurd (if_pos hin) h
    · exact .kept .eof nofun _

/-! ### The step -/

section Run

variable {hal : Hal} {scheduled : Bool} {preOpPc : ℕ} {trace : Trace} {p p' : Process}
  {rc : Status} {events : List Event}

/-- An instruction that fails has no events, and at most moved the pc or collected. -/
theorem Instr.run_failed {i : Instr}
    (h : i.run hal scheduled preOpPc p trace = .ok (rc, p', events)) (hrc : rc ≠ .ok) :
    Failed p rc p' ∧ events = [] := by
  cases i with
  | callBif bifId args dst =>
      simp only [Instr.run] at h
      split at h
      · split at h
        · rename_i hreq
          cases h
          exact ⟨.same (bifRequest_refused hreq).2, rfl⟩
        · cases h
          exact absurd rfl hrc
      · cases h
        exact ⟨.same (by decide), rfl⟩
  | recvCmd t a b c d =>
      obtain ⟨popped, -, h⟩ := bind_eq_ok.mp h
      rcases popped with _ | ⟨cmd, mb⟩
      · dsimp only at h
        split at h <;> cases h <;> exact absurd rfl hrc
      · cases h
        exact absurd rfl hrc
  | makeTuple dst elems =>
      obtain ⟨⟨rc', q⟩, hq, h⟩ := bind_eq_ok.mp h
      cases h
      exact ⟨allocate_failed (makeTuple_keepsFull _) hq hrc, rfl⟩
  | cons dst hd tl =>
      obtain ⟨⟨rc', q⟩, hq, h⟩ := bind_eq_ok.mp h
      cases h
      exact ⟨allocate_failed (cons_keepsFull hd tl) hq hrc, rfl⟩
  | jmp offset =>
      cases h
      exact ⟨jumpTo_failed hrc, rfl⟩
  | jmpIfZero r offset =>
      simp only [Instr.run] at h
      split at h
      · cases h
        exact ⟨jumpTo_failed hrc, rfl⟩
      · cases h
        exact absurd rfl hrc
  | tupleElem dst tuple index =>
      simp only [Instr.run] at h
      split at h
      · obtain ⟨hdr, -, h⟩ := bind_eq_ok.mp h
        split at h
        · cases h
          exact ⟨.same (by decide), rfl⟩
        · split at h
          · obtain ⟨w, -, h⟩ := bind_eq_ok.mp h
            cases h
            exact absurd rfl hrc
          · cases h
            exact ⟨.same (by decide), rfl⟩
      · cases h
        exact ⟨.same (by decide), rfl⟩
  | head dst cell | tail dst cell =>
      simp only [Instr.run] at h
      split at h
      · obtain ⟨w, -, h⟩ := bind_eq_ok.mp h
        cases h
        exact absurd rfl hrc
      · cases h
        exact ⟨.same (by decide), rfl⟩
  | sleepMs r =>
      simp only [Instr.run] at h
      split at h <;> cases h <;> exact absurd rfl hrc
  | _ =>
      cases h
      exact absurd rfl hrc

end Run

/-- A collection does not look at the pc. -/
theorem gcRegs_setPc {p q : Process} {pc : ℕ} (h : gcRegs (p.setPc pc) = .ok q) :
    ∃ q', gcRegs p = .ok q' ∧ q = q'.setPc pc := by
  obtain ⟨⟨roots, heap⟩, hgc, h⟩ := bind_eq_ok.mp h
  cases h
  refine ⟨{ p with heap := heap, regs := Vector.ofFn fun i => roots.getD i 0 }, ?_, rfl⟩
  have hsame : mbHeapGc p.heap p.regs.toList = .ok (roots, heap) := hgc
  rw [gcRegs, hsame]
  rfl

section Step

variable {hal : Hal} {m m' : Machine} {rc : Status}

theorem execInstr_failed {i : Instr} {preOpPc : ℕ} (h : execInstr hal preOpPc m i = .ok (rc, m'))
    (hrc : rc ≠ .ok) : ∃ p', Failed m.proc rc p' ∧ m' = m.setProc (p'.fail rc) := by
  by_cases hs : i.IsSend
  · obtain ⟨a, b, c, d, e, f, rfl⟩ := hs
    rcases m with ⟨p | ⟨s, self⟩, t⟩
    · cases h
      exact absurd rfl hrc
    · obtain ⟨⟨after, events⟩, -, h⟩ := bind_eq_ok.mp h
      cases h
      exact absurd rfl hrc
  · obtain ⟨p', events, hrun, rfl⟩ := execInstr_ok hal preOpPc hs h
    obtain ⟨hfailed, rfl⟩ := Instr.run_failed hrun hrc
    exact ⟨p', hfailed, by rw [if_neg hrc, Machine.emit_nil]⟩

/-- A step that fails stores its status in `last_error`. Besides that it has moved the pc and
nothing else, or, out of heap, moved the pc and collected once. In either case the other
processes and the trace of HAL calls and mailbox events are those of before. -/
theorem failing_step_keeps (h : mbProcStep hal m = .ok (rc, m')) (hrc : rc ≠ .ok) :
    m'.proc.lastError = rc ∧ m'.trace = m.trace ∧
    (rc ≠ .heapOom → ∃ pc, m' = m.setProc { m.proc with pc := pc, lastError := rc }) ∧
    (rc = .heapOom → ∃ pc q, gcRegs m.proc = .ok q ∧
      m' = m.setProc { m.proc with
        heap := q.heap, regs := q.regs, pc := pc, lastError := rc }) := by
  rw [mbProcStep_eq] at h
  split at h
  · cases h
    exact absurd rfl hrc
  · split at h
    · rename_i e pc hd
      cases h
      have herror := (decode_built _).error (congrArg Prod.fst hd)
      refine ⟨by rw [Machine.proc_setProc]; rfl, rfl, fun _ => ⟨pc, rfl⟩, ?_⟩
      rintro rfl
      cases herror
    · rename_i i pc hd
      obtain ⟨p', hfailed, rfl⟩ := execInstr_failed h hrc
      rw [Machine.setProc_setProc]
      refine ⟨by rw [Machine.proc_setProc]; rfl, rfl, ?_⟩
      rw [Machine.proc_setProc] at hfailed
      cases hfailed with
      | kept _ hne pc' => exact ⟨fun _ => ⟨pc', rfl⟩, fun he => absurd he hne⟩
      | collected gc =>
          obtain ⟨q, hq, rfl⟩ := gcRegs_setPc gc
          refine ⟨fun hne => absurd rfl hne, fun _ => ⟨pc, q, hq, ?_⟩⟩
          obtain ⟨⟨roots, heap⟩, -, hq⟩ := bind_eq_ok.mp hq
          cases hq
          rfl

end Step

/-- `TUPLE_ELEM` of an unwritten register. -/
theorem failing_step_keeps_badTerm :
    ∃ m', mbProcStep (fun _ _ => ⟨0, 0, 0⟩)
        ⟨.sched (mbSchedSpawn mbSchedInit [0x51, 0, 1, 0]).2 0, []⟩ = .ok (.badTerm, m') ∧
      m'.proc.lastError = .badTerm ∧ m'.trace = [] := by
  obtain ⟨⟨rc, m'⟩, hstep, hrc⟩ := exists_ok_of_map (mbProcStep (fun _ _ => ⟨0, 0, 0⟩)
    ⟨.sched (mbSchedSpawn mbSchedInit [0x51, 0, 1, 0]).2 0, []⟩) Prod.fst .badTerm
    (by decide +kernel)
  obtain rfl : rc = .badTerm := hrc
  obtain ⟨herror, htrace, -, -⟩ := failing_step_keeps hstep (by decide)
  exact ⟨m', hstep, herror, htrace⟩

end MiniBeam
