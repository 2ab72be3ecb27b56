import MiniBeam.Verification.Compat.Steps
import MiniBeam.Verification.Process.Simulation

/-! A register that was never written holds the word 0, not the integer 0. All instructions
but `JMP_IF_ZERO` take one for the other. -/

namespace MiniBeam

open Lockstep (Results)
open RootedGraph

/-! ### Zero and the integer zero -/

/-- The same word, or the word 0 on one side and the integer 0 on the other. -/
def ZeroAsInt (t u : Term) : Prop := t = u ∨ (t = 0 ∧ u = makeSmallint 0)

theorem immediates_zeroAsInt : Immediates ZeroAsInt := ⟨fun _ => .inl rfl, fun _ => .inl rfl⟩

/-- The same integer. -/
def SameInt (t u : Term) : Prop := getSmallint u = getSmallint t

section Registers

variable {p q : Process} {f : Obj → Obj}

/-- A register holds the same word on both sides, or zeros. -/
theorem Process.Aligned.zeroAsInt (h : p.Similar ZeroAsInt q f) (ha : p.Aligned q f) (r : Reg) :
    ZeroAsInt (p.reg r) (q.reg r) := by
  cases ho : target (p.reg r) with
  | none => exact h.data ho
  | some o =>
      have ho' := (h.target_reg ho).1
      rw [ha.same o (Process.live_target ho)] at ho'
      exact .inl ((target_some ho).1.symm.trans (target_some ho').1)

theorem ZeroAsInt.sameInt {t u : Term} (h : ZeroAsInt t u) : SameInt t u := by
  rcases h with rfl | ⟨rfl, rfl⟩
  · rfl
  · show getSmallint (makeSmallint 0) = getSmallint 0
    decide

theorem ZeroAsInt.test_iff {t u : Term} (h : ZeroAsInt t u) (ht : t ≠ 0) :
    u = makeSmallint 0 ↔ t = makeSmallint 0 := by
  rcases h with rfl | ⟨rfl, -⟩
  · exact Iff.rfl
  · exact absurd rfl ht

end Registers

/-! ### Conditions that both sides share -/

section Transfer

variable {D : Term → Term → Prop} {p q : Process} {f : Obj → Obj}

theorem Process.Aligned.live_iff (h : p.Similar D q f) (ha : p.Aligned q f) {o : Obj} :
    q.Live o ↔ p.Live o := by
  constructor
  · intro ho
    obtain ⟨a, hlive, rfl⟩ := h.sim.exists_of_reach ho
    exact (ha.same a hlive).symm ▸ hlive
  · intro ho
    exact ha.same o ho ▸ h.sim.reach ho

theorem Process.Aligned.recordsFit (h : p.Similar D q f) (ha : p.Aligned q f)
    (hrec : p.heap.RecordsFit p.regs.toList) : q.heap.RecordsFit q.regs.toList := by
  intro o ho
  obtain ⟨inside, free⟩ := hrec o ((Process.Aligned.live_iff h ha).mp ho)
  exact ⟨h.capacity ▸ inside, fun o' ho' => free o' ((Process.Aligned.live_iff h ha).mp ho')⟩

theorem Process.Aligned.inPlace (h : p.Similar D q f) (ha : p.Aligned q f) {r : Reg}
    (hplace : p.InPlace r) : q.InPlace r := by
  intro o objs ho hfinds
  obtain ⟨f', hflip, halign⟩ := h.symm
  have hback := hflip.finds (halign ha) hfinds
  have hlive := h.heapOk.finds_live hback
  have ho' : target (p.reg r) = some o := by
    have htarget := (hflip.target_reg ho).1
    rwa [(halign ha).same o (Process.live_target ho)] at htarget
  rw [Layout.addr_congr fun a hobj => h.length_words ha (hlive a hobj)]
  exact hplace o objs ho' hback

/-- The condition on a collecting step holds on both sides or on neither. -/
theorem Process.Aligned.collectsRightly (h : p.Similar D q f) (ha : p.Aligned q f) {i : Instr}
    (hi : i.CollectsRightly p) : i.CollectsRightly q := by
  intro hfull
  rw [ha.hp, h.capacity] at hfull
  obtain ⟨hrec, hkeeps⟩ := hi hfull
  refine ⟨Process.Aligned.recordsFit h ha hrec, ?_⟩
  cases i with
  | makeTuple dst elems =>
      rcases hkeeps with hfits | ⟨k, hlive, hbig⟩ | hplace
      · exact .inl (by rw [ha.hp, h.capacity]; exact hfits)
      · exact .inr (.inl ⟨k, h.liveWords_iff.mpr hlive, h.capacity ▸ hbig⟩)
      · exact .inr (.inr fun r hr => Process.Aligned.inPlace h ha (hplace r hr))
  | _ => exact trivial

end Transfer

/-! ### One step -/

/-- A `JMP_IF_ZERO` finds another word than 0, or makes no difference. -/
def Instr.TestsInts (p : Process) : Instr → Prop
  | .jmpIfZero r offset => p.reg r = 0 → jumpTo p offset = (.ok, p)
  | _ => True

/-- The next instruction does not take the word 0 for another value than the integer 0. -/
def Process.TestsInts (p : Process) : Prop :=
  p.halted = false → ∀ i pc, decode p.program p.pc = (.ok i, pc) → i.TestsInts (p.setPc pc)

theorem jumpTo_stays {p q : Process} {offset : I32} (hpc : q.pc = p.pc)
    (hprogram : q.program = p.program) (h : jumpTo p offset = (.ok, p)) :
    jumpTo q offset = (.ok, q) := by
  unfold jumpTo at h ⊢
  rw [hpc, hprogram]
  split at h
  · cases h
  · rename_i hback
    rw [if_neg hback]
    obtain ⟨hok, hstay⟩ := Prod.mk.inj h
    have hsame : ((p.pc : ℤ) + offset.toInt).toNat = p.pc := congrArg Process.pc hstay
    simp only [hsame] at hok ⊢
    rw [hok, ← hpc]
    rfl

section Step

variable {R : Term → Term → Prop} {H : Heap → Heap → Prop} {p q : Process} {i : Instr}

/-- An instruction that tests a zero without a difference does nothing on either side. -/
theorem Instr.run_zeroTest (hal : Hal) (scheduled : Bool) (preOpPc : ℕ) (t : Trace) {r : Reg}
    {offset : I32} (h : p.Matched R H q) (hr : p.reg r = 0)
    (hi : (Instr.jmpIfZero r offset).TestsInts p) :
    Results (Alike R H (SameControl p q))
      ((Instr.jmpIfZero r offset).run hal scheduled preOpPc p t)
      ((Instr.jmpIfZero r offset).run hal scheduled preOpPc q t) := by
  have hne : (0 : Term) ≠ makeSmallint 0 := by decide
  have hq := jumpTo_stays h.pc h.program (hi hr)
  simp only [Instr.run, hr, hne, if_false]
  split
  · rw [hq]
    exact .ok ⟨rfl, h, id, rfl⟩
  · exact .ok ⟨rfl, h, id, rfl⟩

/-- Apart from such tests, zeros are the same integers. -/
theorem Instr.sameInts_zeroAsInt (hregs : ∀ r, ZeroAsInt (p.reg r) (q.reg r))
    (hi : ∀ r ∈ i.tests, p.reg r ≠ 0) : i.SameInts p q :=
  ⟨fun r _ => (hregs r).sameInt, fun r hr => (hregs r).test_iff (hi r hr)⟩

/-- An instruction that tests a zero is a `JMP_IF_ZERO` of it. -/
theorem Instr.zeroTest_of_tests (h : ¬ ∀ r ∈ i.tests, p.reg r ≠ 0) :
    ∃ r offset, i = .jmpIfZero r offset ∧ p.reg r = 0 := by
  simp only [not_forall, not_not] at h
  obtain ⟨r, hr, hzero⟩ := h
  cases i with
  | jmpIfZero r' offset =>
      obtain rfl := List.mem_singleton.mp hr
      exact ⟨r, offset, rfl, hzero⟩
  | _ => cases hr

end Step

section Machine

variable {m m' : Machine} {f : Obj → Obj}

/-- A step of two machines that are the same up to zeros, at the same offsets. -/
theorem mbProcStep_zeros (hal : Hal) (h : m.Similar ZeroAsInt m' f) (ha : m.proc.Aligned m'.proc f)
    (htests : m.proc.TestsInts) (hcollects : m.proc.CollectsRightly) :
    Results (fun a b => b.1 = a.1 ∧ ∃ f', a.2.Similar ZeroAsInt b.2 f' ∧
      a.2.proc.Aligned b.2.proc f') (mbProcStep hal m) (mbProcStep hal m') := by
  have hmatched := h.matched.proc
  have hcollects' : m'.proc.CollectsRightly := by
    intro hhalted i pc hd
    rw [hmatched.halted] at hhalted
    rw [hmatched.program, hmatched.pc] at hd
    exact Process.Aligned.collectsRightly h.proc ha (hcollects hhalted i pc hd)
  refine (mbProcStep_similar hal h fun i pc hhalted hd => ?_).mono
    fun a b ⟨hrc, f', hsim, halign⟩ => ⟨hrc, f', hsim, halign ha⟩
  have hregs := Process.Aligned.zeroAsInt h.proc ha
  by_cases hz : ∀ r ∈ i.tests, m.proc.reg r ≠ 0
  · exact execFetched_similar immediates_zeroAsInt hal h hcollects hcollects' hhalted hd
      (Instr.sameInts_zeroAsInt hregs hz)
  · obtain ⟨r, offset, rfl, hzero⟩ := Instr.zeroTest_of_tests hz
    have hi := htests hhalted _ pc hd
    have hs : ¬ (Instr.jmpIfZero r offset).IsSend := Instr.not_isSend nofun
    have hf := h.fetched pc
    have htwins : (m.setProc (m.proc.setPc pc)).proc.Matched
        (Process.Twins ZeroAsInt m.proc m'.proc f) (Process.KeepsHeaps m.proc m'.proc)
        (m'.setProc (m'.proc.setPc pc)).proc := by
      apply hf.matched.proc.mono
      · intro r
        rw [Machine.proc_setProc, Machine.proc_setProc]
        exact h.proc.reg r
      · rw [Machine.proc_setProc, Machine.proc_setProc]
        exact ⟨rfl, rfl⟩
    refine (execInstr_of_run hal m.proc.pc hs hf.matched
      (Instr.run_zeroTest hal _ m.proc.pc _ htwins ?_ ?_)).mono fun _ _ => Steps.similar h.proc
    · rw [Machine.proc_setProc]
      exact hzero
    · rw [Machine.proc_setProc]
      exact hi

end Machine

/-! ### Runs of a process -/

/-- The machine `n` when the process `p` is at its turn. What the outside may have changed
since the last turn is as `n` has it: the mailbox, the scheduling data, the other processes
and the HAL calls so far. -/
def Machine.resume (n : Machine) (p : Process) : Machine :=
  n.setProc { n.proc with
    pid := p.pid
    program := p.program
    pc := p.pc
    regs := p.regs
    heap := p.heap
    halted := p.halted
    lastError := p.lastError }

/-- The steps of a process at its turns. -/
def turns (hal : Hal) : Process → List Machine → Except Fault (List (Status × Machine))
  | _, [] => .ok []
  | p, n :: ns => do
    let (rc, m) ← mbProcStep hal (n.resume p)
    let rest ← turns hal m.proc ns
    return (rc, m) :: rest

/-- The condition on the states at the turns. -/
def SafeTurns (hal : Hal) : Process → List Machine → Prop
  | _, [] => True
  | p, n :: ns => (n.resume p).proc.TestsInts ∧ (n.resume p).proc.CollectsRightly ∧
    ∀ rc m, mbProcStep hal (n.resume p) = .ok (rc, m) → SafeTurns hal m.proc ns

/-- The same status, and machines that differ in registers and heap of the process only, with
registers that read as the same integers. -/
structure SameTurn (a b : Status × Machine) : Prop where
  status : b.1 = a.1
  machine : a.2.Matched SameInt (fun _ _ => True) b.2

/-- The same process with the integer 0 in all registers. -/
def Process.intZeros (p : Process) : Process :=
  { p with regs := Vector.replicate regCount (makeSmallint 0) }

/-- Processes that are the same up to zeros, as far as the outside cannot change them. -/
structure Process.SameUpToZeros (p q : Process) : Prop where
  pid : q.pid = p.pid
  program : q.program = p.program
  pc : q.pc = p.pc
  halted : q.halted = p.halted
  lastError : q.lastError = p.lastError
  similar : ∃ f, p.Similar ZeroAsInt q f ∧ p.Aligned q f

theorem mbProcInit_sameUpToZeros (pid : Byte) (program : List Byte) :
    (mbProcInit pid program).SameUpToZeros (mbProcInit pid program).intZeros := by
  have hok := Process.HeapOk.init 0 pid program
  have hrefl : (mbProcInit pid program).Similar ZeroAsInt (mbProcInit pid program) id :=
    ⟨hok, hok, (simVia_eq_iff.mpr (.refl _ _)).mono fun _ _ => .inl⟩
  refine ⟨rfl, rfl, rfl, rfl, rfl, id, hrefl.replace rfl rfl fun r => ?_, rfl, fun _ _ => rfl⟩
  have hzero : (mbProcInit pid program).reg r = 0 := by simp [Process.reg, mbProcInit, Process.zero]
  have hint : (mbProcInit pid program).intZeros.reg r = makeSmallint 0 := by
    simp [Process.reg, Process.intZeros]
  rw [hzero, hint]
  exact ⟨.inl (.inr ⟨rfl, rfl⟩), .data (.inl rfl), .data (.inr (isImmediate_makeSmallint 0))⟩

section Turns

variable {p q : Process} {n : Machine}

theorem Process.SameUpToZeros.resume (h : p.SameUpToZeros q) :
    ∃ f, (n.resume p).Similar ZeroAsInt (n.resume q) f ∧
      (n.resume p).proc.Aligned (n.resume q).proc f := by
  obtain ⟨f, hsim, ha⟩ := h.similar
  refine ⟨f, ⟨.intro ⟨h.pid, h.program, h.pc, rfl, h.halted, h.lastError, fun _ => trivial, trivial⟩
    fun _ => ⟨rfl, rfl, rfl⟩, ?_⟩, ?_⟩
  · simp only [Machine.resume, Machine.proc_setProc]
    exact hsim.congr rfl rfl rfl rfl
  · simp only [Machine.resume, Machine.proc_setProc]
    exact ha.replace rfl rfl hsim.heapOk.sees_reg

/-- Turns of processes that are the same up to zeros. -/
theorem Process.SameUpToZeros.turns (hal : Hal) (ns : List Machine) (h : p.SameUpToZeros q)
    (hsafe : SafeTurns hal p ns) :
    Results (List.Forall₂ SameTurn) (turns hal p ns) (turns hal q ns) := by
  induction ns generalizing p q with
  | nil => exact .ok .nil
  | cons n ns ih =>
      obtain ⟨htests, hcollects, hrest⟩ := hsafe
      obtain ⟨f, hsim, ha⟩ := h.resume (n := n)
      have hstep := mbProcStep_zeros hal hsim ha htests hcollects
      rw [MiniBeam.turns, MiniBeam.turns]
      cases hrun : mbProcStep hal (n.resume p) with
      | error e =>
          rw [hrun] at hstep
          generalize mbProcStep hal (n.resume q) = y at hstep
          cases hstep
          exact .error e
      | ok a =>
          obtain ⟨b, hrun', hrc, f', hsim', ha'⟩ := hstep.right hrun
          have hm := hsim'.matched.proc
          have hnext : a.2.proc.SameUpToZeros b.2.proc :=
            ⟨hm.pid, hm.program, hm.pc, hm.halted, hm.lastError, f', hsim'.proc, ha'⟩
          have hints : a.2.proc.Matched SameInt (fun _ _ => True) b.2.proc :=
            hm.mono (fun r => (Process.Aligned.zeroAsInt hsim'.proc ha' r).sameInt) trivial
          rw [hrun']
          simp only [ok_bind]
          apply (ih hnext (hrest a.1 a.2 hrun)).bind
          intro l l' hl
          exact .ok (.cons ⟨hrc, hsim'.matched.same, hints, hsim'.matched.control⟩ hl)

end Turns

/-! ### Runs of a VM -/

/-- The same word, or zeros, and no pointer. -/
def ZeroData (t u : Term) : Prop := ZeroAsInt t u ∧ (t = 0 ∨ isImmediate t = true)

theorem immediates_zeroData : Immediates ZeroData :=
  ⟨fun v => ⟨.inl rfl, .inr (isImmediate_makeSmallint v)⟩,
    fun b => ⟨.inl rfl, .inr (isImmediate_makePid b)⟩⟩

theorem ZeroData.right {t u : Term} (h : ZeroData t u) : u = 0 ∨ isImmediate u = true := by
  obtain ⟨rfl | ⟨-, rfl⟩, himm⟩ := h
  · exact himm
  · exact .inr (isImmediate_makeSmallint 0)

section Heapless

variable {p q : Process}

theorem copyRoots_data {heap : Heap} {roots : List Term}
    (h : ∀ t ∈ roots, t = 0 ∨ isImmediate t = true) : copyRoots heap roots = .ok (roots, heap) := by
  induction roots with
  | nil => rfl
  | cons root roots ih =>
      have hroot : (isImmediate root || root == 0) = true := by
        rcases h root List.mem_cons_self with rfl | himm
        · rfl
        · rw [himm, Bool.true_or]
      have hcopy : mbGcCopyTerm heap root = .ok (root, heap) := if_pos hroot
      simp only [copyRoots, hcopy, ok_bind, ih fun t ht => h t (List.mem_cons_of_mem _ ht), pure_ok]

/-- A collection without a heap and without pointers changes no register. -/
theorem gcRegs_data (hp : p.heap = Heap.zero)
    (h : ∀ r, p.reg r = 0 ∨ isImmediate (p.reg r) = true) :
    ∃ q, gcRegs p = .ok q ∧ q.regs = p.regs := by
  have hroots : ∀ t ∈ p.regs.toList, t = 0 ∨ isImmediate t = true := by
    intro t ht
    obtain ⟨i, hi, rfl⟩ := List.mem_iff_getElem.mp ht
    simpa [Process.reg] using h ⟨i, by simpa using hi⟩
  have hregs : (Vector.ofFn fun i : Fin regCount => p.regs.toList.getD i 0) = p.regs := by
    apply Vector.ext
    intro i _
    simp
  have hscan : ∀ (heap : Heap) (fuel : ℕ), heap.hp = 0 → scanLoop heap 0 (fuel + 1) = .ok heap := by
    intro heap fuel hhp
    rw [scanLoop, hhp, if_neg (Nat.lt_irrefl 0)]
  have hgc : ∃ heap, mbHeapGc Heap.zero p.regs.toList = .ok (p.regs.toList, heap) := by
    simp only [mbHeapGc, copyRoots_data hroots, ok_bind, hscan, Heap.zero, pure_ok]
    exact ⟨_, rfl⟩
  obtain ⟨heap, hgc⟩ := hgc
  refine ⟨{ p with heap := heap, regs := Vector.ofFn fun i => p.regs.toList.getD i 0 }, ?_, hregs⟩
  rw [gcRegs, hp, hgc]
  rfl

/-- Without a heap an allocation fails, and changes no register. -/
theorem allocate_data {alloc : Process → Except Fault (Term × Heap)} (dst : Reg)
    (hp : p.heap = Heap.zero) (h : ∀ r, p.reg r = 0 ∨ isImmediate (p.reg r) = true)
    (halloc : ∀ q : Process, q.heap.hp = 0 → q.heap.capacity = 0 → alloc q = .ok (0, q.heap)) :
    ∃ p', allocate p alloc dst = .ok (.heapOom, p') ∧ p'.regs = p.regs := by
  obtain ⟨q, hgc, hregs⟩ := gcRegs_data hp h
  obtain ⟨hhp, hcap⟩ := gcRegs_zero hp hgc
  have hfirst := halloc p (by rw [hp]; rfl) (by rw [hp]; rfl)
  exact ⟨q, allocate_oom hfirst hgc (halloc q hhp hcap), hregs⟩

/-- Processes without a heap and without pointers, the same up to zeros. -/
abbrev ZeroHeapless (p q : Process) : Prop :=
  p.Matched ZeroData (fun a b => a = Heap.zero ∧ b = Heap.zero) q

theorem allocate_zeroHeapless {alloc alloc' : Process → Except Fault (Term × Heap)} {dst : Reg}
    (h : ZeroHeapless p q)
    (halloc : ∀ q : Process, q.heap.hp = 0 → q.heap.capacity = 0 → alloc q = .ok (0, q.heap))
    (halloc' : ∀ q : Process, q.heap.hp = 0 → q.heap.capacity = 0 → alloc' q = .ok (0, q.heap)) :
    Results (Alike ZeroData (fun _ _ => True) (SameControl p q))
      (do let (rc, p) ← allocate p alloc dst; return (rc, p, []))
      (do let (rc, q) ← allocate q alloc' dst; return (rc, q, [])) := by
  obtain ⟨p', hp', hregs⟩ := allocate_data dst h.heap.1 (fun r => (h.regs r).2) halloc
  obtain ⟨q', hq', hregs'⟩ := allocate_data dst h.heap.2 (fun r => (h.regs r).right) halloc'
  have hreg : ∀ r, ZeroData (p'.reg r) (q'.reg r) := by
    intro r
    have hr := h.regs r
    simp only [Process.reg] at hr ⊢
    rwa [hregs, hregs']
  rw [hp', hq']
  refine .ok ⟨rfl, ?_, fun hc => ?_, rfl⟩
  · have hrest := allocate_rest hp'
    have hrest' := allocate_rest hq'
    refine ⟨?_, ?_, ?_, ?_, ?_, ?_, hreg, trivial⟩
    · rw [hrest, hrest']; exact h.pid
    · rw [hrest, hrest']; exact h.program
    · rw [hrest, hrest']; exact h.pc
    · rw [hrest, hrest']; exact h.mailbox
    · rw [hrest, hrest']; exact h.halted
    · rw [hrest, hrest']; exact h.lastError
  · have hcp := allocate_control hp'
    have hcq := allocate_control hq'
    exact ⟨hcq.state.trans (hc.state.trans hcp.state.symm),
      hcq.sleepUntilMs.trans (hc.sleepUntilMs.trans hcp.sleepUntilMs.symm),
      hcq.reductions.trans (hc.reductions.trans hcp.reductions.symm)⟩

/-- An instruction that finds the same integers has the same effect without a heap. -/
theorem ZeroHeapless.run (hal : Hal) (scheduled : Bool) (preOpPc : ℕ) (t : Trace) {i : Instr}
    (h : ZeroHeapless p q) (hi : i.SameInts p q) :
    Results (Alike ZeroData (fun _ _ => True) (SameControl p q))
      (i.run hal scheduled preOpPc p t) (i.run hal scheduled preOpPc q t) := by
  have hstay : p.Matched ZeroData (fun _ _ => True) q := h.mono h.regs trivial
  by_cases hheap : i.OnHeap
  · have hp : ∀ r, isBoxed (p.reg r) = false ∧ isCons (p.reg r) = false := fun r =>
      target_none (target_of_immediate (h.regs r).2)
    have hq : ∀ r, isBoxed (q.reg r) = false ∧ isCons (q.reg r) = false := fun r =>
      target_none (target_of_immediate (h.regs r).right)
    cases i with
    | makeTuple dst elems =>
        exact allocate_zeroHeapless h (fun q hhp hcap => mbHeapMakeTuple_zero hhp hcap _ _)
          fun q hhp hcap => mbHeapMakeTuple_zero hhp hcap _ _
    | cons dst hd tl =>
        exact allocate_zeroHeapless h (fun q hhp hcap => mbHeapCons_zero hhp hcap _ _)
          fun q hhp hcap => mbHeapCons_zero hhp hcap _ _
    | tupleElem dst tuple index =>
        simp only [Instr.run, hp, hq, Bool.false_eq_true, if_false]
        exact .ok ⟨rfl, hstay, id, rfl⟩
    | head dst cell | tail dst cell =>
        simp only [Instr.run, hp, hq, Bool.false_eq_true, if_false]
        exact .ok ⟨rfl, hstay, id, rfl⟩
    | _ => exact hheap.elim
  · exact Instr.run_matched immediates_zeroData hal scheduled preOpPc t hheap hstay hi

/-- A step without a heap. -/
theorem mbProcStep_zeroHeapless (hal : Hal) (t : Trace) (h : ZeroHeapless p q)
    (htests : p.TestsInts) : Results (Steps ZeroData fun _ _ => True)
      (mbProcStep hal ⟨.compat p, t⟩) (mbProcStep hal ⟨.compat q, t⟩) := by
  have hm : Machine.Matched ZeroData (fun a b => a = Heap.zero ∧ b = Heap.zero)
      ⟨.compat p, t⟩ ⟨.compat q, t⟩ := ⟨rfl, h, nofun⟩
  have hstay : ∀ {m m' : Machine},
      m.Matched ZeroData (fun a b => a = Heap.zero ∧ b = Heap.zero) m' →
      m.Matched ZeroData (fun _ _ => True) m' := fun h =>
    ⟨h.same, h.proc.mono h.proc.regs trivial, h.control⟩
  apply mbProcStep_matched hal hm
  · exact ⟨rfl, hstay hm⟩
  · exact fun e pc => ⟨rfl, hstay (hm.failed e pc)⟩
  · intro i pc hhalted hd
    have hf := hm.fetched pc
    by_cases hz : ∀ r ∈ i.tests, p.reg r ≠ 0
    · have hi : i.SameInts (p.setPc pc) (q.setPc pc) :=
        Instr.sameInts_zeroAsInt (fun r => (h.regs r).1) hz
      by_cases hs : i.IsSend
      · obtain ⟨_, _, _, _, _, _, rfl⟩ := hs
        exact execInstr_matched hal _ immediates_zeroData id (hstay hf) hi
      · exact execInstr_of_run hal _ hs hf (ZeroHeapless.run hal _ _ _ hf.proc hi)
    · obtain ⟨r, offset, rfl, hzero⟩ := Instr.zeroTest_of_tests hz
      have hi := htests hhalted _ pc hd
      have hs : ¬ (Instr.jmpIfZero r offset).IsSend := Instr.not_isSend nofun
      exact execInstr_of_run hal _ hs hf (Instr.run_zeroTest hal _ _ _ (hstay hf).proc hzero hi)

end Heapless

/-- The steps of a VM at its turns, with the mailbox and the HAL calls so far as they are
then. -/
def vmTurns (hal : Hal) : VmState → List (Mailbox × Trace) →
    Except Fault (List (Status × VmState × Trace))
  | _, [] => .ok []
  | vm, (mb, t) :: ts => do
    let r ← mbVmStep hal { vm with mailbox := mb } t
    let rest ← vmTurns hal r.2.1 ts
    return r :: rest

/-- The condition on the states at the turns. -/
def SafeVmTurns (hal : Hal) : VmState → List (Mailbox × Trace) → Prop
  | _, [] => True
  | vm, (mb, t) :: ts => (mbVmToProc { vm with mailbox := mb }).TestsInts ∧
    ∀ r, mbVmStep hal { vm with mailbox := mb } t = .ok r → SafeVmTurns hal r.2.1 ts

/-- The same status, and VMs that differ in the registers only, which read as the same
integers. -/
structure SameVmTurn (a b : Status × VmState × Trace) : Prop where
  status : b.1 = a.1
  vm : b.2.1 = { a.2.1 with regs := b.2.1.regs }
  regs : ∀ r : Reg, SameInt (a.2.1.regs.get r) (b.2.1.regs.get r)
  trace : b.2.2 = a.2.2

/-- The same VM with the integer 0 in all registers. -/
def VmState.intZeros (vm : VmState) : VmState :=
  { vm with regs := Vector.replicate regCount (makeSmallint 0) }

/-- VMs that are the same up to zeros. -/
structure VmState.SameUpToZeros (vm vm' : VmState) : Prop where
  rest : vm' = { vm with regs := vm'.regs }
  regs : ∀ r : Reg, ZeroData (vm.regs.get r) (vm'.regs.get r)

theorem mbVmInit_sameUpToZeros (program : List Byte) :
    (mbVmInit program).SameUpToZeros (mbVmInit program).intZeros := by
  refine ⟨rfl, fun r => ?_⟩
  have hzero : (mbVmInit program).regs.get r = 0 := by simp [mbVmInit, Vector.get]
  have hint : (mbVmInit program).intZeros.regs.get r = makeSmallint 0 := by
    simp [VmState.intZeros, Vector.get]
  rw [hzero, hint]
  exact ⟨.inr ⟨rfl, rfl⟩, .inl rfl⟩

section VmTurns

variable {vm vm' : VmState}

theorem VmState.SameUpToZeros.step (hal : Hal) (t : Trace) (h : vm.SameUpToZeros vm')
    (htests : (mbVmToProc vm).TestsInts) :
    Results (fun a b => b.1 = a.1 ∧ a.2.1.SameUpToZeros b.2.1 ∧ b.2.2 = a.2.2)
      (mbVmStep hal vm t) (mbVmStep hal vm' t) := by
  have hproc : ZeroHeapless (mbVmToProc vm) (mbVmToProc vm') := by
    rw [h.rest]
    exact ⟨rfl, rfl, rfl, rfl, rfl, rfl, h.regs, rfl, rfl⟩
  apply (mbProcStep_zeroHeapless hal t hproc htests).bind
  rintro ⟨rc, m⟩ ⟨rc', m'⟩ ⟨hrc, hm⟩
  refine .ok ⟨hrc, ⟨?_, hm.proc.regs⟩, hm.trace⟩
  simp only [mbProcToVm, hm.proc.pc, hm.proc.mailbox, hm.proc.halted, hm.proc.lastError]
  rw [h.rest]

/-- Turns of VMs that are the same up to zeros. -/
theorem VmState.SameUpToZeros.turns (hal : Hal) (ts : List (Mailbox × Trace))
    (h : vm.SameUpToZeros vm') (hsafe : SafeVmTurns hal vm ts) :
    Results (List.Forall₂ SameVmTurn) (vmTurns hal vm ts) (vmTurns hal vm' ts) := by
  induction ts generalizing vm vm' with
  | nil => exact .ok .nil
  | cons turn ts ih =>
      obtain ⟨mb, t⟩ := turn
      obtain ⟨htests, hrest⟩ := hsafe
      have hnow : ({ vm with mailbox := mb } : VmState).SameUpToZeros { vm' with mailbox := mb } :=
        ⟨by rw [h.rest], h.regs⟩
      have hstep := hnow.step hal t htests
      rw [vmTurns, vmTurns]
      cases hrun : mbVmStep hal { vm with mailbox := mb } t with
      | error e =>
          rw [hrun] at hstep
          generalize mbVmStep hal { vm' with mailbox := mb } t = y at hstep
          cases hstep
          exact .error e
      | ok a =>
          obtain ⟨b, hrun', hrc, hsame, htrace⟩ := hstep.right hrun
          rw [hrun']
          simp only [ok_bind]
          apply (ih hsame (hrest a hrun)).bind
          intro l l' hl
          exact .ok (.cons ⟨hrc, hsame.rest, fun r => (hsame.regs r).1.sameInt, htrace⟩ hl)

end VmTurns

/-- Unwritten registers behave as integer zero, in every run in which no `JMP_IF_ZERO` that
would move `pc` finds the word 0 in its register, and in which collections find room for
their records and a `MAKE_TUPLE` stores words that are still in their registers. -/
theorem unwritten_reads_zero (hal : Hal) (program : List Byte) :
    (∀ (pid : Byte) (ns : List Machine), SafeTurns hal (mbProcInit pid program) ns →
      Results (List.Forall₂ SameTurn) (turns hal (mbProcInit pid program) ns)
        (turns hal (mbProcInit pid program).intZeros ns)) ∧
    ∀ ts : List (Mailbox × Trace), SafeVmTurns hal (mbVmInit program) ts →
      Results (List.Forall₂ SameVmTurn) (vmTurns hal (mbVmInit program) ts)
        (vmTurns hal (mbVmInit program).intZeros ts) :=
  ⟨fun pid ns => (mbProcInit_sameUpToZeros pid program).turns hal ns,
    fun ts => (mbVmInit_sameUpToZeros program).turns hal ts⟩

/-- `CONS` of two unwritten registers: zeros go into a cell. -/
theorem unwritten_reads_zero_cons :
    Results (List.Forall₂ SameTurn)
      (turns idleHal (mbProcInit 1 [0x52, 0, 1, 2]) [⟨.compat Process.zero, []⟩])
      (turns idleHal (mbProcInit 1 [0x52, 0, 1, 2]).intZeros [⟨.compat Process.zero, []⟩]) ∧
    Results (List.Forall₂ SameVmTurn)
      (vmTurns idleHal (mbVmInit [0x52, 0, 1, 2]) [(Mailbox.zero, [])])
      (vmTurns idleHal (mbVmInit [0x52, 0, 1, 2]).intZeros [(Mailbox.zero, [])]) := by
  have hd : decode [0x52, 0, 1, 2] 0 = (.ok (.cons 0 1 2), 4) := rfl
  have hcons : ∀ {i pc}, decode [0x52, 0, 1, 2] 0 = (.ok i, pc) → i = .cons 0 1 2 := by
    intro i pc hi
    simpa using (congrArg Prod.fst (hi.symm.trans hd))
  obtain ⟨hproc, hvm⟩ := unwritten_reads_zero idleHal [0x52, 0, 1, 2]
  refine ⟨hproc 1 _ ⟨fun _ i pc hi => ?_, fun _ i pc hi hfull => ?_, fun _ _ _ => trivial⟩,
    hvm _ ⟨fun _ i pc hi => ?_, fun _ _ => trivial⟩⟩
  · rw [hcons hi]
    exact trivial
  · rw [hcons hi] at hfull
    exact absurd hfull (by decide)
  · rw [hcons hi]
    exact trivial

/-- `JMP_IF_ZERO` of an unwritten register does not jump. -/
theorem unwritten_not_tested_zero :
    ¬ Results (List.Forall₂ SameTurn)
      (turns idleHal (mbProcInit 1 [0x31, 0, 1, 0, 0, 0, 0xFF]) [⟨.compat Process.zero, []⟩])
      (turns idleHal (mbProcInit 1 [0x31, 0, 1, 0, 0, 0, 0xFF]).intZeros
        [⟨.compat Process.zero, []⟩]) := by
  intro h
  have hraw : (turns idleHal (mbProcInit 1 [0x31, 0, 1, 0, 0, 0, 0xFF])
      [⟨.compat Process.zero, []⟩]).map (List.map fun a => a.2.proc.pc) = .ok [6] := by
    decide +kernel
  have hint : (turns idleHal (mbProcInit 1 [0x31, 0, 1, 0, 0, 0, 0xFF]).intZeros
      [⟨.compat Process.zero, []⟩]).map (List.map fun a => a.2.proc.pc) = .ok [7] := by
    decide +kernel
  obtain ⟨l, hl, hpcs⟩ := exists_ok_of_map _ _ _ hraw
  obtain ⟨l', hl', hpcs'⟩ := exists_ok_of_map _ _ _ hint
  have hsame := h.of_ok hl hl'
  have hmap : List.Forall₂ Eq (l.map fun a => a.2.proc.pc) (l'.map fun a => a.2.proc.pc) := by
    rw [List.forall₂_map_left_iff, List.forall₂_map_right_iff]
    exact hsame.imp fun _ _ hturn => hturn.machine.proc.pc.symm
  rw [hpcs, hpcs', List.forall₂_eq_eq_eq] at hmap
  exact absurd hmap (by decide)

end MiniBeam
