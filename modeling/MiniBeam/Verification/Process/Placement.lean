import MiniBeam.Verification.Process.Simulation

/-! Where the objects of a process stand on its heap is invisible to its program, as long as
no instruction reads a reference as an integer. Collections can come at any time. -/

namespace MiniBeam

open Lockstep (Results)
open RootedGraph

/-! ### The same state, placed elsewhere -/

/-- Well-formed states of a process that differ in the offsets of its objects only: what the
registers see is isomorphic, and everything outside registers and heap is the same. -/
structure Machine.Isomorphic (m m' : Machine) : Prop where
  matched : m.Matched (fun _ _ => True) (fun _ _ => True) m'
  heapOk : m.proc.HeapOk 0
  heapOk' : m'.proc.HeapOk 0
  iso : ∃ f, IsoVia (graph m.proc.heap.fromSpace) (m.proc.regs.toList.map value)
    (graph m'.proc.heap.fromSpace) (m'.proc.regs.toList.map value) f

/-- The same status, HAL calls and sends, and isomorphic states: registers without references
hold the same words. -/
structure SameOutcome (a b : Status × Machine) : Prop where
  status : b.1 = a.1
  trace : b.2.trace = a.2.trace
  data : ∀ r, target (a.2.proc.reg r) = none → b.2.proc.reg r = a.2.proc.reg r
  isomorphic : a.2.Isomorphic b.2

/-- The next instruction reads no reference as an integer, and if it collects, then the
forwarding records fit and a `MAKE_TUPLE` stores words that are still in their registers. -/
structure Process.Opaque (p : Process) : Prop where
  reads : p.halted = false → ∀ i pc, decode p.program p.pc = (.ok i, pc) →
    ∀ r ∈ i.ints, target (p.reg r) = none
  collects : p.CollectsRightly

section Isomorphic

variable {m m' : Machine}

theorem Machine.isomorphic_iff : m.Isomorphic m' ↔ ∃ f, m.Similar Eq m' f := by
  constructor
  · rintro ⟨hmatched, hok, hok', f, hiso⟩
    exact ⟨f, hmatched, hok, hok', simVia_eq_iff.mpr hiso⟩
  · rintro ⟨f, hmatched, hok, hok', hsim⟩
    exact ⟨hmatched, hok, hok', f, simVia_eq_iff.mp hsim⟩

theorem SimilarSteps.sameOutcome {aligned : Prop} {a b : Status × Machine}
    (h : SimilarSteps Eq aligned a b) : SameOutcome a b := by
  obtain ⟨hstatus, f, hsim, -⟩ := h
  exact ⟨hstatus, hsim.matched.trace, fun r hr => (hsim.proc.data hr).symm,
    Machine.isomorphic_iff.mpr ⟨f, hsim⟩⟩

/-- Data and tests are the same in isomorphic states. -/
theorem Process.Similar.sameInts {p q : Process} {f : Obj → Obj} (h : p.Similar Eq q f) {i : Instr}
    (hi : ∀ r ∈ i.ints, target (p.reg r) = none) : i.SameInts p q := by
  constructor
  · intro r hr
    exact congrArg getSmallint (h.data (hi r hr)).symm
  · intro r _
    have hzero : target (makeSmallint 0) = none := by decide
    constructor
    · intro hq
      have hnone : target (p.reg r) = none := by
        have := target_map (h.reg r).rel
        rwa [hq, hzero, eq_comm, Option.map_eq_none_iff] at this
      exact (h.data hnone).trans hq
    · intro hp
      exact (h.data (hp ▸ hzero)).symm.trans hp

/-- A step of isomorphic states. -/
theorem Machine.Isomorphic.step (h : m.Isomorphic m') (hal : Hal) (hp : m.proc.Opaque)
    (hq : m'.proc.Opaque) : Results SameOutcome (mbProcStep hal m) (mbProcStep hal m') := by
  obtain ⟨f, hsim⟩ := Machine.isomorphic_iff.mp h
  have hstep := mbProcStep_similar hal hsim fun i pc hhalted hd =>
    execFetched_similar immediates_eq hal hsim hp.collects hq.collects hhalted hd
      (hsim.proc.sameInts (hp.reads hhalted i pc hd))
  exact hstep.mono fun _ _ => SimilarSteps.sameOutcome

end Isomorphic

/-! ### Collections at any time -/

/-- The machine after a collection, if there is one. -/
def Machine.collect (collect : Bool) (m : Machine) : Except Fault Machine :=
  if collect then do
    let p ← gcRegs m.proc
    return m.setProc p
  else return m

/-- A run of `n` steps, with a collection before step `k` when `collects k` says so. -/
def runCollecting (hal : Hal) (collects : ℕ → Bool) : ℕ → Machine → Except Fault (Status × Machine)
  | 0, m => .ok (.ok, m)
  | n + 1, m => do
    let (_, m) ← runCollecting hal collects n m
    let m ← m.collect (collects n)
    mbProcStep hal m

/-- The condition on the states of a run: forwarding records fit where it collects, and the
states before its steps are opaque. -/
def OpaqueRun (hal : Hal) (collects : ℕ → Bool) (n : ℕ) (m : Machine) : Prop :=
  ∀ k < n, ∀ rc m₁, runCollecting hal collects k m = .ok (rc, m₁) →
    (collects k = true → m₁.proc.heap.RecordsFit m₁.proc.regs.toList) ∧
      ∀ m₂, m₁.collect (collects k) = .ok m₂ → m₂.proc.Opaque

section Collect

variable {m m' : Machine} {c c' : Bool}

theorem Machine.collect_iso (h : m.proc.HeapOk 0)
    (hrec : c = true → m.proc.heap.RecordsFit m.proc.regs.toList) :
    ∃ p e, m.collect c = .ok (m.setProc p) ∧ p = { m.proc with heap := p.heap, regs := p.regs } ∧
      p.HeapOk 0 ∧ IsoVia (graph m.proc.heap.fromSpace) (m.proc.regs.toList.map value)
        (graph p.heap.fromSpace) (p.regs.toList.map value) e := by
  cases c with
  | false => exact ⟨m.proc, id, by simp [Machine.collect, pure_ok], rfl, h, .refl _ _⟩
  | true =>
      obtain ⟨q, e, hgc, hq⟩ := h.gc (hrec rfl)
      exact ⟨q, e, by simp [Machine.collect, hgc, ok_bind, pure_ok], hq.rest, hq.heapOk, hq.iso⟩

/-- Collections on either side keep states isomorphic. -/
theorem Machine.Isomorphic.collect (h : m.Isomorphic m')
    (hrec : c = true → m.proc.heap.RecordsFit m.proc.regs.toList)
    (hrec' : c' = true → m'.proc.heap.RecordsFit m'.proc.regs.toList) :
    Results Machine.Isomorphic (m.collect c) (m'.collect c') := by
  obtain ⟨p, e, hrun, hrest, hok, hiso⟩ := m.collect_iso h.heapOk hrec
  obtain ⟨q, e', hrun', hrest', hok', hiso'⟩ := m'.collect_iso h.heapOk' hrec'
  obtain ⟨f, hf⟩ := h.iso
  obtain ⟨f', hf', -⟩ := ((simVia_eq_iff.mpr hf).right hiso').left hiso
  have hmatched := h.matched.proc
  rw [hrun, hrun']
  refine .ok ⟨h.matched.update (p := p) (q := q) ?_ fun hs => ?_, ?_, ?_, ?_⟩
  · rw [hrest, hrest']
    exact ⟨hmatched.pid, hmatched.program, hmatched.pc, hmatched.mailbox, hmatched.halted,
      hmatched.lastError, fun _ => trivial, trivial⟩
  · rw [hrest, hrest']
    exact ⟨(h.matched.control hs).state, (h.matched.control hs).sleepUntilMs,
      (h.matched.control hs).reductions⟩
  · rwa [Machine.proc_setProc]
  · rwa [Machine.proc_setProc]
  · rw [Machine.proc_setProc, Machine.proc_setProc]
    exact ⟨f', simVia_eq_iff.mp hf'⟩

theorem Machine.Isomorphic.refl_outcome (h : m.Isomorphic m') :
    SameOutcome (.ok, m) (.ok, m') := by
  obtain ⟨f, hsim⟩ := Machine.isomorphic_iff.mp h
  have hsteps : SimilarSteps Eq False (Status.ok, m) (Status.ok, m') :=
    ⟨rfl, f, hsim, False.elim⟩
  exact hsteps.sameOutcome

/-- Runs from isomorphic states, whenever they collect. -/
theorem Machine.Isomorphic.run (h : m.Isomorphic m') (hal : Hal) (collects collects' : ℕ → Bool)
    (n : ℕ) (hm : OpaqueRun hal collects n m) (hm' : OpaqueRun hal collects' n m') :
    Results SameOutcome (runCollecting hal collects n m) (runCollecting hal collects' n m') := by
  induction n with
  | zero => exact .ok h.refl_outcome
  | succ n ih =>
      have hprev := ih (fun k hk => hm k (Nat.lt_succ_of_lt hk))
        fun k hk => hm' k (Nat.lt_succ_of_lt hk)
      have hn := hm n (Nat.lt_succ_self n)
      have hn' := hm' n (Nat.lt_succ_self n)
      rw [runCollecting, runCollecting]
      cases hrun : runCollecting hal collects n m with
      | error e =>
          rw [hrun] at hprev
          generalize runCollecting hal collects' n m' = y at hprev
          cases hprev
          exact .error e
      | ok a =>
          obtain ⟨b, hrun', hab⟩ := hprev.right hrun
          obtain ⟨hrec, hclosed⟩ := hn a.1 a.2 hrun
          obtain ⟨hrec', hclosed'⟩ := hn' b.1 b.2 hrun'
          rw [hrun']
          have hcollect := hab.isomorphic.collect hrec hrec'
          simp only [ok_bind]
          cases hc : a.2.collect (collects n) with
          | error e =>
              rw [hc] at hcollect
              generalize b.2.collect (collects' n) = y at hcollect
              cases hcollect
              exact .error e
          | ok m₁ =>
              obtain ⟨m₁', hc', hiso⟩ := hcollect.right hc
              rw [hc']
              exact hiso.step hal (hclosed m₁ hc) (hclosed' m₁' hc')

end Collect

/-- Where the objects stand is invisible: from isomorphic states, a step in which no
reference is read as an integer has the same outcome, and so has every run of such steps,
whether and whenever either side collects. -/
theorem layout_invisible (hal : Hal) {m m' : Machine} (h : m.Isomorphic m') :
    (m.proc.Opaque → m'.proc.Opaque →
      Results SameOutcome (mbProcStep hal m) (mbProcStep hal m')) ∧
    ∀ (collects collects' : ℕ → Bool) (n : ℕ), OpaqueRun hal collects n m →
      OpaqueRun hal collects' n m' →
      Results SameOutcome (runCollecting hal collects n m) (runCollecting hal collects' n m') :=
  ⟨h.step hal, h.run hal⟩

/-! ### A cell at two places -/

/-- Another program for the running process. -/
def Machine.load (m : Machine) (program : List Byte) : Machine :=
  m.setProc { m.proc with program := program }

theorem nearlyFull_isomorphic (program : List Byte) {a b : ℕ} (ha : a + 2 ≤ 126)
    (hb : b + 2 ≤ 126) :
    ((nearlyFull a).load program).Isomorphic ((nearlyFull b).load program) := by
  have hok : ∀ {off : ℕ}, off + 2 ≤ 126 → ((nearlyFull off).load program).proc.HeapOk 1 :=
    fun hoff => (nearlyFull_heapOk hoff).congr rfl rfl
  have hcell : ∀ {off : ℕ}, off + 2 ≤ 126 → value (makeCons off) = .inr (.cell off) := by
    intro off hoff
    have hlt : off < maxOffset := by
      simp only [maxOffset]
      omega
    exact value_inr.mpr (target_term (o := .cell off) hlt)
  refine ⟨⟨rfl, ⟨rfl, rfl, rfl, rfl, rfl, rfl, fun _ => trivial, trivial⟩, nofun⟩,
    (hok ha).mono (Nat.zero_le 1), (hok hb).mono (Nat.zero_le 1), fun _ => .cell b, ?_, ?_, ?_, ?_⟩
  · intro o ho o' ho' _
    exact (nearlyFull_live ha ho).trans (nearlyFull_live ha ho').symm
  · show (nearlyFull b).proc.regs.toList.map value =
      ((nearlyFull a).proc.regs.toList.map value).map (mapRef fun _ => .cell b)
    rw [nearlyFull_regs, nearlyFull_regs, List.map_set, List.map_set, List.map_set, hcell ha,
      hcell hb]
    rfl
  · intro o ho
    obtain rfl := nearlyFull_live ha ho
    rfl
  · intro o ho
    obtain rfl := nearlyFull_live ha ho
    show (Obj.fields (nearlyFull b).proc.heap.fromSpace (.cell b)).map value =
      ((Obj.fields (nearlyFull a).proc.heap.fromSpace (.cell a)).map value).map
        (mapRef fun _ => .cell b)
    rw [nearlyFull_cell ha, nearlyFull_cell hb]
    rfl

/-- `HEAD` is opaque: it reads no integers and allocates nothing. -/
theorem head_opaque {p : Process} (h : p.HeapOk 0) (hprogram : p.program = [0x53, 0, 1])
    (hpc : p.pc = 0) : p.Opaque := by
  have hd : decode p.program p.pc = (.ok (.head 0 1), 3) := by
    rw [hprogram, hpc]
    rfl
  constructor
  · intro _ i pc hd' r hr
    obtain rfl : Instr.head 0 1 = i := by simpa using (congrArg Prod.fst (hd.symm.trans hd'))
    simp [Instr.ints] at hr
  · intro _ i pc hd' hfull
    obtain rfl : Instr.head 0 1 = i := by simpa using (congrArg Prod.fst (hd.symm.trans hd'))
    have := h.wellFormed.hp_le
    simp only [Instr.words] at hfull
    omega

/-- A program that takes the head of a cell, wherever the cell is, and also if one of the
machines collects first. -/
theorem layout_invisible_head :
    Results SameOutcome (mbProcStep idleHal ((nearlyFull 0).load [0x53, 0, 1]))
      (mbProcStep idleHal ((nearlyFull 124).load [0x53, 0, 1])) ∧
    Results SameOutcome
      (runCollecting idleHal (fun _ => false) 1 ((nearlyFull 0).load [0x53, 0, 1]))
      (runCollecting idleHal (fun _ => true) 1 ((nearlyFull 124).load [0x53, 0, 1])) := by
  have hok : ∀ {off : ℕ}, off + 2 ≤ 126 → ((nearlyFull off).load [0x53, 0, 1]).proc.HeapOk 1 :=
    fun hoff => (nearlyFull_heapOk hoff).congr rfl rfl
  have hrun : ∀ (c : Bool) {off : ℕ}, off + 2 ≤ 126 →
      OpaqueRun idleHal (fun _ => c) 1 ((nearlyFull off).load [0x53, 0, 1]) := by
    intro c off hoff k hk rc m₁ hm₁
    obtain rfl : k = 0 := by omega
    obtain ⟨-, rfl⟩ : .ok = rc ∧ (nearlyFull off).load [0x53, 0, 1] = m₁ := by
      simpa [runCollecting] using hm₁
    refine ⟨fun _ => (hok hoff).wellFormed.recordsFit, fun m₂ hm₂ => ?_⟩
    obtain ⟨p, e, hc, hrest, hp, -⟩ := Machine.collect_iso (c := c)
      ((hok hoff).mono (Nat.zero_le 1)) fun _ => (hok hoff).wellFormed.recordsFit
    obtain rfl := Except.ok.inj (hm₂.symm.trans hc)
    rw [Machine.proc_setProc]
    exact head_opaque hp (by rw [hrest]; rfl) (by rw [hrest]; rfl)
  have h := layout_invisible idleHal
    (nearlyFull_isomorphic [0x53, 0, 1] (a := 0) (b := 124) (by decide) (by decide))
  have hclosed : ∀ {off : ℕ}, off + 2 ≤ 126 → ((nearlyFull off).load [0x53, 0, 1]).proc.Opaque :=
    fun hoff => head_opaque ((hok hoff).mono (Nat.zero_le 1)) rfl rfl
  exact ⟨h.1 (hclosed (by decide)) (hclosed (by decide)),
    h.2 _ _ 1 (hrun false (by decide)) (hrun true (by decide))⟩

/-- `ADD` of a reference to itself stores twice the offset of the object. -/
theorem pointer_sum_visible :
    ((nearlyFull 0).load [0x03, 0, 1, 1]).Isomorphic ((nearlyFull 2).load [0x03, 0, 1, 1]) ∧
    ∃ a b, mbProcStep idleHal ((nearlyFull 0).load [0x03, 0, 1, 1]) = .ok (.ok, a) ∧
      mbProcStep idleHal ((nearlyFull 2).load [0x03, 0, 1, 1]) = .ok (.ok, b) ∧
      a.proc.reg 0 = makeSmallint 0 ∧ b.proc.reg 0 = makeSmallint 4 ∧ ¬ a.Isomorphic b := by
  have hleft : (mbProcStep idleHal ((nearlyFull 0).load [0x03, 0, 1, 1])).map
      (fun r => (r.1, r.2.proc.reg 0)) = .ok (.ok, makeSmallint 0) := by decide +kernel
  have hright : (mbProcStep idleHal ((nearlyFull 2).load [0x03, 0, 1, 1])).map
      (fun r => (r.1, r.2.proc.reg 0)) = .ok (.ok, makeSmallint 4) := by decide +kernel
  obtain ⟨⟨_, a⟩, hstep, ha⟩ := exists_ok_of_map _ _ _ hleft
  obtain ⟨⟨_, b⟩, hstep', hb⟩ := exists_ok_of_map _ _ _ hright
  simp only [Prod.mk.injEq] at ha hb
  obtain ⟨rfl, ha⟩ := ha
  obtain ⟨rfl, hb⟩ := hb
  refine ⟨nearlyFull_isomorphic _ (by decide) (by decide), a, b, hstep, hstep', ha, hb,
    fun hiso => ?_⟩
  obtain ⟨f, hsim⟩ := Machine.isomorphic_iff.mp hiso
  have hdata := hsim.proc.data (r := 0) (by rw [ha]; decide)
  rw [ha, hb] at hdata
  exact absurd hdata (by decide)

end MiniBeam
