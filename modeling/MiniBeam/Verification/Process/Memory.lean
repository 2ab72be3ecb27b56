import MiniBeam.Verification.Process.Similar
import MiniBeam.Verification.Step.Failure

/-! When memory runs out: an allocation fails exactly when the objects that the registers still
reach leave no room for it, however much garbage there is. -/

namespace MiniBeam

section Live

variable {lo : ℕ} {p : Process}

/-- The live objects take some number of words, all below `hp`. -/
theorem Process.HeapOk.liveWords (h : p.HeapOk lo) :
    ∃ n, LiveWords p.heap.fromSpace p.regs.toList n ∧ n ≤ p.heap.hp := by
  classical
  let offsets := Finset.range p.heap.hp
  let objs := ((offsets.image Obj.cell ∪ offsets.image Obj.tuple).filter p.Live).toList
  have hmem : ∀ o, o ∈ objs ↔ p.Live o := by
    intro o
    have hbelow : p.Live o → o.off < p.heap.hp := fun ho => by
      have hfits := (h.wellFormed.sound.fits ho).below
      cases o <;> simp only [Obj.off, Obj.size] at hfits ⊢ <;> omega
    rw [Finset.mem_toList, Finset.mem_filter, Finset.mem_union, and_iff_right_iff_imp]
    intro ho
    cases o with
    | cell off => exact .inl (Finset.mem_image_of_mem _ (Finset.mem_range.mpr (hbelow ho)))
    | tuple off => exact .inr (Finset.mem_image_of_mem _ (Finset.mem_range.mpr (hbelow ho)))
  have hlive : LiveWords p.heap.fromSpace p.regs.toList _ :=
    ⟨objs, Finset.nodup_toList _, hmem, rfl⟩
  exact ⟨_, hlive, hlive.le_hp h⟩

/-- An allocation fails exactly when the live objects leave no room. -/
theorem Allocated.ends {dst : Reg} {alloc : Process → Except Fault (Term × Heap)}
    {kind : ℕ → Obj} {k : ℕ} {label : Option ℕ} {words : Process → List Term} {n : ℕ}
    (h : p.HeapOk lo) (ha : Allocated lo p dst alloc kind k label words)
    (hn : LiveWords p.heap.fromSpace p.regs.toList n) :
    ∃ rc p', allocate p alloc dst = .ok (rc, p') ∧
      (rc = .ok ∧ n + k ≤ p.heap.capacity ∨ rc = .heapOom ∧ p.heap.capacity < n + k) := by
  cases ha with
  | atOnce room p' run =>
      have hle := hn.le_hp h
      exact ⟨.ok, p', run, .inl ⟨rfl, by omega⟩⟩
  | collected full q f gc collects room p' run =>
      rw [← hn.unique collects.live] at room
      exact ⟨.ok, p', run, .inl ⟨rfl, room⟩⟩
  | oom full q f gc collects noRoom run =>
      rw [← hn.unique collects.live] at noRoom
      exact ⟨.heapOom, q, run, .inr ⟨rfl, noRoom⟩⟩

end Live

section Step

variable {hal : Hal} {m m' : Machine} {p p' : Process} {i : Instr} {pc : ℕ}

theorem jumpTo_ne_oom (p : Process) (offset : I32) : (jumpTo p offset).1 ≠ .heapOom := by
  unfold jumpTo
  split
  · exact fun he => by cases he
  · dsimp only
    split <;> exact fun he => by cases he

/-- An instruction that runs out of memory allocates. -/
theorem Instr.run_oom {scheduled : Bool} {preOpPc : ℕ} {trace : Trace} {events : List Event}
    (h : i.run hal scheduled preOpPc p trace = .ok (.heapOom, p', events)) : 0 < i.words := by
  cases i with
  | makeTuple dst elems => exact Nat.lt_of_lt_of_le Nat.zero_lt_one (Nat.le_add_right 1 _)
  | cons dst hd tl => exact Nat.zero_lt_two
  | callBif bifId args dst =>
      simp only [Instr.run] at h
      split at h
      · split at h
        · rename_i hreq
          cases h
          exact absurd rfl (bifRequest_refused hreq).2
        · cases h
      · cases h
  | recvCmd t a b c d =>
      obtain ⟨popped, -, h⟩ := bind_eq_ok.mp h
      rcases popped with _ | ⟨cmd, mb⟩
      · dsimp only at h
        split at h <;> cases h
      · cases h
  | jmp offset =>
      injection h with h
      exact absurd (congrArg Prod.fst h) (jumpTo_ne_oom p offset)
  | jmpIfZero r offset =>
      simp only [Instr.run] at h
      split at h
      · injection h with h
        exact absurd (congrArg Prod.fst h) (jumpTo_ne_oom p offset)
      · cases h
  | tupleElem dst tuple index =>
      simp only [Instr.run] at h
      split at h
      · obtain ⟨hdr, -, h⟩ := bind_eq_ok.mp h
        split at h
        · cases h
        · split at h
          · obtain ⟨w, -, h⟩ := bind_eq_ok.mp h
            cases h
          · cases h
      · cases h
  | head dst cell | tail dst cell =>
      simp only [Instr.run] at h
      split at h
      · obtain ⟨w, -, h⟩ := bind_eq_ok.mp h
        cases h
      · cases h
  | sleepMs r =>
      simp only [Instr.run] at h
      split at h <;> cases h
  | _ => cases h

theorem execInstr_oom {preOpPc : ℕ} (h : execInstr hal preOpPc m i = .ok (.heapOom, m')) :
    0 < i.words := by
  by_cases hs : i.IsSend
  · obtain ⟨a, b, c, d, e, f, rfl⟩ := hs
    rcases m with ⟨p | ⟨s, self⟩, t⟩
    · cases h
    · obtain ⟨⟨after, events⟩, -, h⟩ := bind_eq_ok.mp h
      cases h
  · obtain ⟨p', events, hrun, -⟩ := execInstr_ok hal _ hs h
    exact Instr.run_oom hrun

/-- The step of an allocating instruction. -/
theorem Process.HeapOk.step_allocates (h : m.proc.HeapOk 0) (hh : m.proc.halted = false)
    (hd : decode m.proc.program m.proc.pc = (.ok i, pc)) (hsafe : i.CollectsSafely m.proc)
    (hpos : 0 < i.words) {n : ℕ}
    (hn : LiveWords m.proc.heap.fromSpace m.proc.regs.toList n) :
    ∃ rc m', mbProcStep hal m = .ok (rc, m') ∧
      (rc = .ok ∧ n + i.words ≤ heapWords ∨ rc = .heapOom ∧ heapWords < n + i.words) := by
  have hok := h.setPc pc
  have hrec := fun hfull => (hsafe hfull).1
  rw [mbProcStep_exec hal hh hd, ← h.capacity]
  cases i with
  | cons dst head tail =>
      obtain ⟨rc, p', hrun, hends⟩ := (hok.allocated hrec (consAllocator head tail) dst).ends hok hn
      rw [execInstr_run hal _ (Instr.not_isSend fun he => by cases he),
        Machine.proc_setProc, Instr.run, hrun]
      exact ⟨rc, _, rfl, hends⟩
  | makeTuple dst elems =>
      have hlen : (elems.map (m.proc.setPc pc).reg).length = elems.length := List.length_map _
      have harity : (elems.map (m.proc.setPc pc).reg).length ≤ maxTupleArity :=
        hlen ▸ decode_arityOk hd
      have hwords : (Instr.makeTuple dst elems).words =
          1 + (elems.map (m.proc.setPc pc).reg).length := by rw [hlen, Instr.words]
      rw [hwords] at hrec ⊢
      obtain ⟨rc, p', hrun, hends⟩ := (hok.allocated hrec (tupleAllocator harity) dst).ends hok hn
      rw [execInstr_run hal _ (Instr.not_isSend fun he => by cases he),
        Machine.proc_setProc, Instr.run, hrun]
      exact ⟨rc, _, rfl, hends⟩
  | _ => exact absurd hpos (Nat.lt_irrefl 0)

end Step

/-- In every state of a run whose collections are safe, whatever was allocated before: the next
instruction runs out of memory exactly when the words that the registers still reach and the
words of the new object are more than 128 together; an allocation that fits succeeds. -/
theorem oom_iff_live {hal : Hal} {m : Machine} {i : Instr} {pc : ℕ}
    (h : ProcReached hal Process.StepSafe m.proc) (hsafe : m.proc.StepSafe)
    (hh : m.proc.halted = false) (hd : decode m.proc.program m.proc.pc = (.ok i, pc)) :
    ∃ n, LiveWords m.proc.heap.fromSpace m.proc.regs.toList n ∧
      ((∃ m', mbProcStep hal m = .ok (.heapOom, m')) ↔ heapWords < n + i.words) ∧
      (0 < i.words → n + i.words ≤ heapWords → ∃ m', mbProcStep hal m = .ok (.ok, m')) := by
  obtain ⟨n, hn, hle⟩ := h.heapOk.liveWords
  have hfit : n ≤ heapWords := h.heapOk.capacity ▸ hle.trans h.heapOk.wellFormed.hp_le
  refine ⟨n, hn, ?_, fun hpos hroom => ?_⟩
  · by_cases hpos : 0 < i.words
    · obtain ⟨rc, m', hstep, ⟨rfl, hroom⟩ | ⟨rfl, hfull⟩⟩ :=
        h.heapOk.step_allocates (m := m) hh hd (hsafe hh i pc hd) hpos hn
      · rw [hstep]
        exact iff_of_false (fun ⟨_, hm⟩ => by cases hm) (Nat.not_lt.mpr hroom)
      · exact iff_of_true ⟨m', hstep⟩ hfull
    · refine iff_of_false ?_ (by omega)
      rintro ⟨m', hstep⟩
      rw [mbProcStep_exec hal hh hd] at hstep
      exact hpos (execInstr_oom hstep)
  · obtain ⟨rc, m', hstep, ⟨rfl, -⟩ | ⟨-, hfull⟩⟩ :=
      h.heapOk.step_allocates hh hd (hsafe hh i pc hd) hpos hn
    · exact ⟨m', hstep⟩
    · omega

/-- Seven tuples of 16 elements in seven registers, and an eighth. -/
def liveTuples : List Byte :=
  ((List.range 8).map fun k => 0x50 :: BitVec.ofNat 8 k :: 16 :: List.replicate 16 8).flatten

/-- Before an eighth tuple of 17 words 119 words of the heap are used. Where six of the tuples are
garbage it is made behind a collection; where all are live memory runs out. -/
theorem oom_iff_live_eighth :
    (∃ (m m' : Machine) (n : ℕ), m.proc.heap.hp = 119 ∧
      LiveWords m.proc.heap.fromSpace m.proc.regs.toList n ∧ n + 17 ≤ heapWords ∧
      mbProcStep idleHal m = .ok (.ok, m') ∧ m'.proc.heap.gcCount = 1) ∧
    ∃ (m m' : Machine) (n : ℕ), m.proc.heap.hp = 119 ∧
      LiveWords m.proc.heap.fromSpace m.proc.regs.toList n ∧ heapWords < n + 17 ∧
      mbProcStep idleHal m = .ok (.heapOom, m') := by
  constructor
  · obtain ⟨⟨rcs, m⟩, hrun, hseven⟩ := exists_ok_of_map
      (mbProcSteps idleHal 7 (alone eightTuples))
      (fun r => (decide (r.2.proc.heap.hp = 119 ∧ r.2.proc.halted = false ∧
          r.2.proc.collectable [.tuple 102] = true ∧
          decode r.2.proc.program r.2.proc.pc =
            (.ok (.makeTuple 0 (List.replicate 16 1)), 152)),
        (mbProcStep idleHal r.2).map fun r => (r.1, r.2.proc.heap.gcCount)))
      (true, .ok (.ok, 1))
      (by decide +kernel)
    simp only [Prod.mk.injEq, decide_eq_true_eq] at hseven
    obtain ⟨⟨hhp, hrunning, hcollects, hd⟩, heighth⟩ := hseven
    obtain ⟨⟨rc, m'⟩, hstep, hm'⟩ := exists_ok_of_map _ _ _ heighth
    obtain ⟨rfl, hgc⟩ := Prod.mk.inj hm'
    have hreached : ProcReached idleHal Process.StepSafe m.proc :=
      ProcReached.steps_roomy (m := alone eightTuples) (.init 1 eightTuples) hrun
        (by decide +kernel)
    obtain ⟨n, hn, hoom, -⟩ := oom_iff_live hreached (Process.stepSafe_of_collectable hcollects)
      hrunning hd
    refine ⟨m, m', n, hhp, hn, Nat.not_lt.mp fun hfull => ?_, hstep, hgc⟩
    obtain ⟨m'', hm''⟩ := hoom.mpr hfull
    rw [hstep] at hm''
    cases hm''
  · obtain ⟨⟨rcs, m⟩, hrun, hseven⟩ := exists_ok_of_map
      (mbProcSteps idleHal 7 (alone liveTuples))
      (fun r => (decide (r.2.proc.heap.hp = 119 ∧ r.2.proc.halted = false ∧
          r.2.proc.collectable ((List.range 7).map fun k => .tuple (17 * k)) = true ∧
          decode r.2.proc.program r.2.proc.pc =
            (.ok (.makeTuple 7 (List.replicate 16 8)), 152)),
        (mbProcStep idleHal r.2).map Prod.fst))
      (true, .ok .heapOom)
      (by decide +kernel)
    simp only [Prod.mk.injEq, decide_eq_true_eq] at hseven
    obtain ⟨⟨hhp, hrunning, hcollects, hd⟩, heighth⟩ := hseven
    obtain ⟨⟨rc, m'⟩, hstep, rfl⟩ := exists_ok_of_map _ _ _ heighth
    have hreached : ProcReached idleHal Process.StepSafe m.proc :=
      ProcReached.steps_roomy (m := alone liveTuples) (.init 1 liveTuples) hrun (by decide +kernel)
    obtain ⟨n, hn, hoom, -⟩ := oom_iff_live hreached (Process.stepSafe_of_collectable hcollects)
      hrunning hd
    exact ⟨m, m', n, hhp, hn, hoom.mp ⟨m', hstep⟩, hstep⟩

end MiniBeam
