import MiniBeam.Verification.Process.Similar

/-! One step of two similar processes, of which either may collect. Similar graphs take
equally many words, so both find room for a new object or neither does. -/

namespace MiniBeam

open Lockstep (Results)
open RootedGraph

/-! ### Making room -/

/-- Corresponding objects stand at the same offsets, and equally many words are free. -/
structure Process.Aligned (p q : Process) (f : Obj → Obj) : Prop where
  hp : q.heap.hp = p.heap.hp
  same : ∀ o, p.Live o → f o = o

/-- `p` itself when `n` words are free, and `p` after a collection otherwise; `e` moves the
live objects. -/
inductive Process.Readied (n : ℕ) (p : Process) : Process → (Obj → Obj) → Prop
  | kept (room : p.heap.hp + n ≤ p.heap.capacity) : Readied n p p id
  | collected {q : Process} {e : Obj → Obj} (full : p.heap.capacity < p.heap.hp + n)
      (collects : p.Collects 0 q e) : Readied n p q e

section Ready

variable {D : Term → Term → Prop} {p q p₁ q₁ : Process} {f e e' : Obj → Obj} {n : ℕ}

theorem Process.Readied.iso (h : Readied n p p₁ e) : IsoVia (graph p.heap.fromSpace)
    (p.regs.toList.map value) (graph p₁.heap.fromSpace) (p₁.regs.toList.map value) e := by
  cases h with
  | kept => exact .refl _ _
  | collected _ collects => exact collects.iso

theorem Process.Readied.heapOk (h : Readied n p p₁ e) (hp : p.HeapOk 0) : p₁.HeapOk 0 := by
  cases h with
  | kept => exact hp
  | collected _ collects => exact collects.heapOk

theorem Process.Similar.symm (h : p.Similar D q f) :
    ∃ f', q.Similar (flip D) p f' ∧ (p.Aligned q f → q.Aligned p f') := by
  obtain ⟨f', hf', hinv⟩ := h.sim.symm
  refine ⟨f', ⟨h.heapOk', h.heapOk, hf'⟩, fun ha => ⟨ha.hp.symm, fun o' ho' => ?_⟩⟩
  obtain ⟨o, ho, rfl⟩ := h.sim.exists_of_reach ho'
  rw [hinv o ho, ha.same o ho]

theorem Process.Similar.capacity (h : p.Similar D q f) : q.heap.capacity = p.heap.capacity :=
  h.heapOk'.capacity.trans h.heapOk.capacity.symm

/-- A walk from the registers finds live objects only. -/
theorem Process.HeapOk.finds_live (h : p.HeapOk 0) {objs : List Obj}
    (hfinds : Finds p.heap.fromSpace [] p.regs.toList objs) : ∀ o ∈ objs, p.Live o := by
  refine hfinds.forall_mem (P := p.Live) (fun o ho t ht a ha => ?_) (by simp) fun t ht o ho =>
    .root (mem_map_value.mpr ⟨t, ht, ho⟩)
  have hfield : t ∈ o.fields p.heap.fromSpace := by
    cases o with
    | cell off => exact ht
    | tuple off =>
        obtain ⟨hdr, header, isHdr, -⟩ := (h.wellFormed.sound.fits ho).header off rfl
        rw [Obj.words_tuple header] at ht
        rcases List.mem_cons.mp ht with rfl | ht
        · rw [target_hdr isHdr] at ha
          cases ha
        · exact ht
  exact .field ho (mem_map_value.mpr ⟨t, hfield, ha⟩)

/-- Walks over aligned heaps find the same objects in the same order. -/
theorem Process.Similar.finds (h : p.Similar D q f) (ha : p.Aligned q f) {objs : List Obj}
    (hfinds : Finds p.heap.fromSpace [] p.regs.toList objs) :
    Finds q.heap.fromSpace [] q.regs.toList objs := by
  let R : Term → Term → Prop := fun t u =>
    target u = target t ∧ ∀ o, target t = some o → p.Live o
  have hR : ∀ t u, RelVia D f (value t) (value u) → (∀ o, target t = some o → p.Live o) →
      R t u := by
    intro t u hrel hlive
    refine ⟨?_, hlive⟩
    rw [target_map hrel]
    cases ht : target t with
    | none => rfl
    | some o => exact congrArg some (ha.same o (hlive o ht))
  apply Walk.congr (R := R) (P := p.Live) (fun _ _ h => h) (fun o ho => ?_) hfinds
  · exact Process.regs_forall₂ fun r => hR _ _ (h.reg r).rel fun o => Process.live_target
  · have hfields : List.Forall₂ R (o.fields p.heap.fromSpace) (o.fields q.heap.fromSpace) := by
      have hrel := h.sim.fields_rel o ho
      rw [ha.same o ho] at hrel
      simp only [graph, List.forall₂_map_left_iff, List.forall₂_map_right_iff] at hrel
      exact forall₂_imp_of_mem hrel fun t ht u _ htu =>
        hR t u htu fun a hta => .field ho (mem_map_value.mpr ⟨t, ht, hta⟩)
    cases o with
    | cell off => exact hfields
    | tuple off =>
        have hfits := h.heapOk.wellFormed.sound.fits ho
        have hfits' := h.heapOk'.wellFormed.sound.fits (ha.same _ ho ▸ h.sim.reach ho)
        obtain ⟨hdr, header, isHdr, -⟩ := hfits.header off rfl
        obtain ⟨hdr', header', isHdr', -⟩ := hfits'.header off rfl
        rw [Obj.words_tuple header, Obj.words_tuple header']
        refine .cons ⟨(target_hdr isHdr').trans (target_hdr isHdr).symm, fun a hta => ?_⟩ hfields
        rw [target_hdr isHdr] at hta
        cases hta

theorem Process.Similar.length_words (h : p.Similar D q f) (ha : p.Aligned q f) {o : Obj}
    (ho : p.Live o) : (o.words q.heap.fromSpace).length = (o.words p.heap.fromSpace).length := by
  have hreach := h.sim.reach ho
  have hlabel := h.sim.label_eq o ho
  rw [ha.same o ho] at hreach hlabel
  have hfits := h.heapOk.wellFormed.sound.fits ho
  have hfits' := h.heapOk'.wellFormed.sound.fits hreach
  rw [hfits.length_words (h.heapOk.wellFormed.fromLength ▸ h.heapOk.wellFormed.hp_le),
    hfits'.length_words (h.heapOk'.wellFormed.fromLength ▸ h.heapOk'.wellFormed.hp_le)]
  exact Obj.size_of_label hlabel

/-- Collections of aligned heaps move every object to the same offset. -/
theorem Process.Similar.moves_eq (h : p.Similar D q f) (ha : p.Aligned q f)
    (hc : p.Collects 0 p₁ e) (hc' : q.Collects 0 q₁ e') (o : Obj) : e' o = e o := by
  obtain ⟨objs, hfinds, hlive, hmoves, -⟩ := hc.moves
  obtain ⟨objs', hfinds', -, hmoves', -⟩ := hc'.moves
  obtain rfl := (h.finds ha hfinds).unique hfinds'
  rw [hmoves, hmoves', Layout.addr_congr fun a hobj => h.length_words ha (hlive a hobj)]

/-- Similar processes are still similar when both have made room. -/
theorem Process.Similar.readied (h : p.Similar D q f) (hp : Readied n p p₁ e)
    (hq : Readied n q q₁ e') :
    ∃ f', p₁.Similar D q₁ f' ∧ (p.Aligned q f → p₁.Aligned q₁ f') := by
  obtain ⟨f', hf', hcomm⟩ := (h.sim.right hq.iso).left hp.iso
  refine ⟨f', ⟨hp.heapOk h.heapOk, hq.heapOk h.heapOk', hf'⟩, fun ha => ?_⟩
  have hcap := h.capacity
  cases hp with
  | kept room =>
      cases hq with
      | kept => exact ⟨ha.hp, fun o ho => (hcomm o ho).trans (ha.same o ho)⟩
      | collected full =>
          rw [ha.hp, hcap] at full
          exact absurd room (Nat.not_le.mpr full)
  | collected full collects =>
      cases hq with
      | kept room =>
          rw [ha.hp, hcap] at room
          exact absurd room (Nat.not_le.mpr full)
      | collected _ collects' =>
          refine ⟨(h.liveWords_iff.mp collects'.live).unique collects.live, fun o₁ ho₁ => ?_⟩
          obtain ⟨o, ho, rfl⟩ := collects.iso.exists_of_reach ho₁
          rw [hcomm o ho, Function.comp, ha.same o ho, h.moves_eq ha collects collects']

/-- If one of two similar processes finds room for `n` words, then so does the other. -/
theorem Process.Similar.room (h : p.Similar D q f) (hp : Readied n p p₁ e)
    (hq : Readied n q q₁ e') (hroom : p₁.heap.hp + n ≤ p.heap.capacity) :
    q₁.heap.hp + n ≤ q.heap.capacity := by
  cases hq with
  | kept room => exact room
  | collected _ collects' =>
      have hlive := h.liveWords_iff.mp collects'.live
      rw [h.capacity]
      cases hp with
      | kept =>
          have := hlive.le_hp h.heapOk
          omega
      | collected _ collects => exact hlive.unique collects.live ▸ hroom

end Ready

/-! ### Allocating -/

section Allocate

variable {D : Term → Term → Prop} {p q p' q' : Process} {f : Obj → Obj} {dst : Reg}
  {kind : ℕ → Obj} {n : ℕ} {label : Option ℕ} {words words' : Process → List Term}
  {alloc alloc' : Process → Except Fault (Term × Heap)} {rs : List Reg}

/-- The words of the object are in the registers `rs` when it is stored. -/
def Process.Holds (p : Process) (n : ℕ) (rs : List Reg) (words : Process → List Term) : Prop :=
  ∀ p₁ e, Readied n p p₁ e → p₁.heap.hp + n ≤ p.heap.capacity → words p₁ = rs.map p₁.reg

theorem Allocated.ready (h : Allocated 0 p dst alloc kind n label words) :
    ∃ p₁ e, p.Readied n p₁ e ∧
      ((p₁.heap.hp + n ≤ p.heap.capacity ∧ ∃ p', allocate p alloc dst = .ok (.ok, p') ∧
        p₁.Stores dst (kind p₁.heap.hp) label (words p₁) p') ∨
      (p.heap.capacity < p₁.heap.hp + n ∧ allocate p alloc dst = .ok (.heapOom, p₁))) := by
  cases h with
  | atOnce room p' run stores => exact ⟨p, id, .kept room, .inl ⟨room, p', run, stores⟩⟩
  | collected full q e _ collects room p' run stores =>
      exact ⟨q, e, .collected full collects, .inl ⟨room, p', run, stores⟩⟩
  | oom full q e _ collects noRoom run =>
      exact ⟨q, e, .collected full collects, .inr ⟨noRoom, run⟩⟩

theorem Process.Aligned.place (h : p.Similar D q f) (ha : p.Aligned q f)
    (hs : p.Stores dst (kind p.heap.hp) label (rs.map p.reg) p')
    (hs' : q.Stores dst (kind q.heap.hp) label (rs.map q.reg) q') :
    p'.Aligned q' (Function.update f (kind p.heap.hp) (kind q.heap.hp)) := by
  rw [ha.hp] at hs' ⊢
  constructor
  · have hlabel := hs'.label_eq.trans hs.label_eq.symm
    rw [hs.hp, hs'.hp, ha.hp, Obj.size_of_label hlabel]
  · intro o ho
    have hsees : ∀ t ∈ rs.map p.reg, p.Sees 0 t := by
      intro t ht
      obtain ⟨r, -, rfl⟩ := List.mem_map.mp ht
      exact h.heapOk.sees_reg r
    rcases hs.live_or h.heapOk hsees ho with rfl | ho
    · exact Function.update_self ..
    · have hne : o ≠ kind p.heap.hp := fun he => hs.not_live h.heapOk (he ▸ ho)
      rw [Function.update_of_ne hne]
      exact ha.same o ho

/-- Similar processes that store the words of the same registers stay similar, whether they
collect or not, and fail together. -/
theorem Allocated.similar (h : p.Similar D q f) (hp : Allocated 0 p dst alloc kind n label words)
    (hq : Allocated 0 q dst alloc' kind n label words') (hw : p.Holds n rs words)
    (hw' : q.Holds n rs words') :
    ∃ rc p' q' f', allocate p alloc dst = .ok (rc, p') ∧ allocate q alloc' dst = .ok (rc, q') ∧
      p'.Similar D q' f' ∧ (p.Aligned q f → p'.Aligned q' f') := by
  obtain ⟨p₁, e, hready, hends⟩ := hp.ready
  obtain ⟨q₁, e', hready', hends'⟩ := hq.ready
  obtain ⟨f₁, h₁, haligned⟩ := h.readied hready hready'
  obtain ⟨_, hflip, -⟩ := h.symm
  rcases hends with ⟨room, p', hrun, hs⟩ | ⟨full, hrun⟩ <;>
    rcases hends' with ⟨room', q', hrun', hs'⟩ | ⟨full', hrun'⟩
  · rw [hw _ _ hready room] at hs
    rw [hw' _ _ hready' room'] at hs'
    have hwords : List.Forall₂ (Process.Twins D p₁ q₁ f₁) (rs.map p₁.reg) (rs.map q₁.reg) := by
      rw [List.forall₂_map_left_iff, List.forall₂_map_right_iff, List.forall₂_same]
      exact fun r _ => h₁.reg r
    exact ⟨.ok, p', q', _, hrun, hrun', h₁.place hs hs' hwords,
      fun ha => Process.Aligned.place h₁ (haligned ha) hs hs'⟩
  · exact absurd (h.room hready hready' room) (Nat.not_le.mpr full')
  · exact absurd (hflip.room hready' hready room') (Nat.not_le.mpr full)
  · exact ⟨.heapOom, p₁, q₁, f₁, hrun, hrun', h₁, haligned⟩

end Allocate

/-! ### One step -/

/-- A `MAKE_TUPLE` stores words that are still in their registers. -/
def Instr.KeepsWords (p : Process) : Instr → Prop
  | .makeTuple _ elems => p.KeepsWords elems.length elems
  | _ => True

/-- If the instruction has to collect, the forwarding records fit, and a `MAKE_TUPLE` stores
words that are still in their registers. -/
def Instr.CollectsRightly (p : Process) (i : Instr) : Prop :=
  p.heap.capacity < p.heap.hp + i.words → p.heap.RecordsFit p.regs.toList ∧ i.KeepsWords p

/-- The condition on the state before a step. -/
def Process.CollectsRightly (p : Process) : Prop :=
  p.halted = false → ∀ i pc, decode p.program p.pc = (.ok i, pc) → i.CollectsRightly p

section Run

variable {D : Term → Term → Prop} {p q : Process} {f : Obj → Obj}

theorem consHolds (p : Process) (n : ℕ) (hd tl : Reg) :
    p.Holds n [hd, tl] fun q => [q.reg hd, q.reg tl] :=
  fun _ _ _ _ => rfl

theorem tupleHolds {dst : Reg} {elems : List Reg}
    (h : (Instr.makeTuple dst elems).CollectsRightly p) :
    p.Holds (1 + elems.length) elems fun _ => elems.map p.reg := by
  intro p₁ e hready hroom
  cases hready with
  | kept => rfl
  | collected full collects =>
      apply List.map_congr_left
      intro r hr
      rcases (h full).2 with hfits | ⟨k, hlive, hbig⟩ | hplace
      · exact absurd hfits (Nat.not_le.mpr full)
      · rw [hlive.unique collects.live] at hbig
        exact absurd hroom (Nat.not_le.mpr hbig)
      · exact ((collects.reg_eq_iff r).mpr (hplace r hr)).symm

/-- Allocating instructions end alike in similar processes. -/
theorem Instr.run_allocates (hal : Hal) (scheduled : Bool) (preOpPc : ℕ) (t : Trace) {i : Instr}
    (halloc : i.Allocates) (harity : i.ArityOk) (h : p.Similar D q f) (hp : i.CollectsRightly p)
    (hq : i.CollectsRightly q) :
    ∃ rc p' q' f', i.run hal scheduled preOpPc p t = .ok (rc, p', []) ∧
      i.run hal scheduled preOpPc q t = .ok (rc, q', []) ∧
      p' = { p with heap := p'.heap, regs := p'.regs } ∧
      q' = { q with heap := q'.heap, regs := q'.regs } ∧
      p'.Similar D q' f' ∧ (p.Aligned q f → p'.Aligned q' f') := by
  cases i with
  | makeTuple dst elems =>
      have hlen : ∀ p : Process, (elems.map p.reg).length = elems.length := fun _ =>
        List.length_map _
      have ha : ∀ p : Process, Allocator (fun q => mbHeapMakeTuple q.heap (elems.map p.reg)
          (elems.map p.reg).length) .tuple (1 + elems.length) (some elems.length)
          fun _ => elems.map p.reg := fun p => by
        have hmost : (elems.map p.reg).length ≤ maxTupleArity := hlen p ▸ harity
        have halloc := tupleAllocator hmost
        rwa [hlen] at halloc ⊢
      obtain ⟨rc, p', q', f', hrun, hrun', hsim⟩ :=
        (h.heapOk.allocated (fun hfull => (hp hfull).1) (ha p) dst).similar h
          (h.heapOk'.allocated (fun hfull => (hq hfull).1) (ha q) dst) (tupleHolds hp)
          (tupleHolds hq)
      refine ⟨rc, p', q', f', ?_, ?_, allocate_rest hrun, allocate_rest hrun', hsim⟩
      · simp only [Instr.run, hrun, ok_bind, pure_ok]
      · simp only [Instr.run, hrun', ok_bind, pure_ok]
  | cons dst hd tl =>
      obtain ⟨rc, p', q', f', hrun, hrun', hsim⟩ :=
        (h.heapOk.allocated (fun hfull => (hp hfull).1) (consAllocator hd tl) dst).similar h
          (h.heapOk'.allocated (fun hfull => (hq hfull).1) (consAllocator hd tl) dst)
          (consHolds p _ hd tl) (consHolds q _ hd tl)
      refine ⟨rc, p', q', f', ?_, ?_, allocate_rest hrun, allocate_rest hrun', hsim⟩
      · simp only [Instr.run, hrun, ok_bind, pure_ok]
      · simp only [Instr.run, hrun', ok_bind, pure_ok]
  | _ => exact halloc.elim

end Run

/-! ### Machines -/

/-- Machines that differ in the registers and the heap of the running process only, which hold
similar graphs. -/
structure Machine.Similar (D : Term → Term → Prop) (m m' : Machine) (f : Obj → Obj) : Prop where
  matched : m.Matched (fun _ _ => True) (fun _ _ => True) m'
  proc : m.proc.Similar D m'.proc f

section Machine

variable {D : Term → Term → Prop} {m m' : Machine} {f : Obj → Obj}

theorem Process.Similar.congr {p q p' q' : Process} (h : p.Similar D q f) (hp : p'.heap = p.heap)
    (hpr : p'.regs = p.regs) (hq : q'.heap = q.heap) (hqr : q'.regs = q.regs) :
    p'.Similar D q' f := by
  apply h.replace hp hq
  intro r
  have hreg : p'.reg r = p.reg r := by rw [Process.reg, hpr, Process.reg]
  have hreg' : q'.reg r = q.reg r := by rw [Process.reg, hqr, Process.reg]
  rw [hreg, hreg']
  exact h.reg r

/-- Registers that hold words seen before keep an alignment. -/
theorem Process.Aligned.replace {p q p' q' : Process} (ha : p.Aligned q f)
    (hp : p'.heap = p.heap) (hq : q'.heap = q.heap) (hregs : ∀ r, p.Sees 0 (p'.reg r)) :
    p'.Aligned q' f := by
  refine ⟨by rw [hp, hq, ha.hp], fun o ho => ha.same o ?_⟩
  have hgraph : graph p'.heap.fromSpace = graph p.heap.fromSpace := by rw [hp]
  rw [Process.Live, MiniBeam.Live, hgraph] at ho
  refine ho.of_roots fun v hv => ?_
  obtain ⟨t, ht, htarget⟩ := mem_map_value.mp hv
  obtain ⟨i, hi, rfl⟩ := List.mem_iff_getElem.mp ht
  have hsees := hregs ⟨i, by simpa using hi⟩
  simp only [Process.reg, Vector.getElem_toList] at hsees htarget
  exact hsees.isLive v htarget

/-- What a step of similar machines does. -/
def SimilarSteps (D : Term → Term → Prop) (aligned : Prop) (a b : Status × Machine) : Prop :=
  b.1 = a.1 ∧ ∃ f, a.2.Similar D b.2 f ∧ (aligned → a.2.proc.Aligned b.2.proc f)

theorem Steps.similar {p q : Process} {a b : Status × Machine} (h : p.Similar D q f)
    (hs : Steps (Process.Twins D p q f) (Process.KeepsHeaps p q) a b) :
    SimilarSteps D (p.Aligned q f) a b := by
  obtain ⟨hrc, hm⟩ := hs
  obtain ⟨hp, hq⟩ := hm.proc.heap
  refine ⟨hrc, f, ⟨⟨hm.same, hm.proc.mono (fun _ => trivial) trivial, hm.control⟩,
    h.replace hp hq hm.proc.regs⟩, fun ha => ha.replace hp hq fun r => (hm.proc.regs r).left⟩

/-- An instruction that finds the same integers in similar machines has the same effect. -/
theorem execInstr_similar (hD : Immediates D) (hal : Hal) (preOpPc : ℕ) {i : Instr}
    (h : m.Similar D m' f) (hi : i.SameInts m.proc m'.proc) (harity : i.ArityOk)
    (hp : i.CollectsRightly m.proc) (hq : i.CollectsRightly m'.proc) :
    Results (SimilarSteps D (m.proc.Aligned m'.proc f)) (execInstr hal preOpPc m i)
      (execInstr hal preOpPc m' i) := by
  have htwins :
      m.Matched (Process.Twins D m.proc m'.proc f) (Process.KeepsHeaps m.proc m'.proc) m' :=
    ⟨h.matched.same, h.matched.proc.mono h.proc.reg ⟨rfl, rfl⟩, h.matched.control⟩
  by_cases hs : i.IsSend
  · have hheap : ¬ i.OnHeap := by
      obtain ⟨_, _, _, _, _, _, rfl⟩ := hs
      exact id
    exact (execInstr_matched hal preOpPc (hD.twins ..) hheap htwins hi).mono
      fun _ _ => Steps.similar h.proc
  · by_cases halloc : i.Allocates
    · obtain ⟨rc, p', q', f', hrun, hrun', hp', hq', hsim, haligned⟩ :=
        i.run_allocates hal m.ctx.scheduled preOpPc m.trace halloc harity h.proc hp hq
      refine (execInstr_of_run hal preOpPc hs h.matched (R := Process.Twins D p' q' f')
        (H := Process.KeepsHeaps p' q') ?_).mono fun a b hab => ?_
      · rw [hrun, hrun']
        refine .ok ⟨rfl, ⟨?_, ?_, ?_, ?_, ?_, ?_, hsim.reg, rfl, rfl⟩, fun hc => ?_, rfl⟩
        · rw [hp', hq']; exact h.matched.proc.pid
        · rw [hp', hq']; exact h.matched.proc.program
        · rw [hp', hq']; exact h.matched.proc.pc
        · rw [hp', hq']; exact h.matched.proc.mailbox
        · rw [hp', hq']; exact h.matched.proc.halted
        · rw [hp', hq']; exact h.matched.proc.lastError
        · rw [hp', hq']; exact ⟨hc.state, hc.sleepUntilMs, hc.reductions⟩
      · obtain ⟨hrc, f'', hab, halign⟩ := hab.similar hsim
        exact ⟨hrc, f'', hab, fun ha => halign (haligned ha)⟩
    · exact (execInstr_of_run hal preOpPc hs h.matched
        (Instr.run_similar hD hal _ preOpPc m.trace halloc h.proc h.matched.proc hi)).mono
          fun _ _ => Steps.similar h.proc

/-- A step of similar machines, given what the instruction does. -/
theorem mbProcStep_similar (hal : Hal) (h : m.Similar D m' f)
    (hexec : ∀ i pc, m.proc.halted = false → decode m.proc.program m.proc.pc = (.ok i, pc) →
      Results (SimilarSteps D (m.proc.Aligned m'.proc f))
        (execInstr hal m.proc.pc (m.setProc (m.proc.setPc pc)) i)
        (execInstr hal m.proc.pc (m'.setProc (m'.proc.setPc pc)) i)) :
    Results (SimilarSteps D (m.proc.Aligned m'.proc f)) (mbProcStep hal m) (mbProcStep hal m') := by
  apply mbProcStep_matched hal h.matched
  · exact ⟨rfl, f, h, id⟩
  · intro e pc
    refine ⟨rfl, f, ⟨h.matched.failed e pc, ?_⟩, fun ha => ?_⟩
    · rw [Machine.proc_setProc, Machine.proc_setProc]
      exact h.proc.congr rfl rfl rfl rfl
    · rw [Machine.proc_setProc, Machine.proc_setProc]
      exact ha.replace rfl rfl h.proc.heapOk.sees_reg
  · exact hexec

/-- The machines after the fetch of an instruction. -/
theorem Machine.Similar.fetched (h : m.Similar D m' f) (pc : ℕ) :
    (m.setProc (m.proc.setPc pc)).Similar D (m'.setProc (m'.proc.setPc pc)) f := by
  refine ⟨h.matched.fetched pc, ?_⟩
  rw [Machine.proc_setProc, Machine.proc_setProc]
  exact h.proc.congr rfl rfl rfl rfl

/-- A decoded instruction that finds the same integers in similar machines has the same
effect. -/
theorem execFetched_similar (hD : Immediates D) (hal : Hal) (h : m.Similar D m' f)
    (hp : m.proc.CollectsRightly) (hq : m'.proc.CollectsRightly) {i : Instr} {pc : ℕ}
    (hhalted : m.proc.halted = false) (hd : decode m.proc.program m.proc.pc = (.ok i, pc))
    (hi : i.SameInts m.proc m'.proc) :
    Results (SimilarSteps D (m.proc.Aligned m'.proc f))
      (execInstr hal m.proc.pc (m.setProc (m.proc.setPc pc)) i)
      (execInstr hal m.proc.pc (m'.setProc (m'.proc.setPc pc)) i) := by
  have hmatched := h.matched.proc
  have hd' : decode m'.proc.program m'.proc.pc = (.ok i, pc) := by
    rw [hmatched.program, hmatched.pc, hd]
  refine (execInstr_similar hD hal m.proc.pc (h.fetched pc) ?_ (decode_arityOk hd) ?_ ?_).mono
    fun a b hab => ?_
  · rw [Machine.proc_setProc, Machine.proc_setProc]
    exact ⟨hi.ints, hi.tests⟩
  · rw [Machine.proc_setProc]
    exact hp hhalted i pc hd
  · rw [Machine.proc_setProc]
    exact hq (hmatched.halted.trans hhalted) i pc hd'
  · rw [Machine.proc_setProc, Machine.proc_setProc] at hab
    exact ⟨hab.1, hab.2.imp fun f' hf' => ⟨hf'.1, fun ha =>
      hf'.2 (ha.replace rfl rfl h.proc.heapOk.sees_reg)⟩⟩

end Machine

end MiniBeam
