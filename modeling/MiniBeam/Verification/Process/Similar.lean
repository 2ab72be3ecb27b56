import MiniBeam.Library.Similarity
import MiniBeam.Verification.Process.Tuples
import MiniBeam.Verification.Step.Lockstep

/-! Two processes whose heaps hold similar graphs. An instruction that finds the same
integers in both has the same effect on both. -/

namespace MiniBeam

open Lockstep (Results)
open RootedGraph

/-! ### Similar processes -/

instance : Nonempty Obj := ⟨.cell 0⟩

theorem target_map {D : Term → Term → Prop} {f : Obj → Obj} {t u : Term}
    (h : RelVia D f (value t) (value u)) : target u = (target t).map f := by
  generalize hv : value u = v at h
  cases ht : target t with
  | none =>
      rw [show value t = .inl t by simp [value, ht]] at h
      cases h with
      | inl _ =>
          cases hu : target u with
          | none => rfl
          | some o => simp [value, hu] at hv
  | some o =>
      rw [value_inr.mpr ht] at h
      cases h with
      | inr he => exact value_inr.mp (he ▸ hv)

/-- The registers of both processes see similar graphs, with data related by `D`. -/
structure Process.Similar (D : Term → Term → Prop) (p q : Process) (f : Obj → Obj) : Prop where
  heapOk : p.HeapOk 0
  heapOk' : q.HeapOk 0
  sim : SimVia D (graph p.heap.fromSpace) (p.regs.toList.map value) (graph q.heap.fromSpace)
    (q.regs.toList.map value) f

/-- A word that the first process sees, and its counterpart in the second. -/
structure Process.Twins (D : Term → Term → Prop) (p q : Process) (f : Obj → Obj) (t u : Term) :
    Prop where
  rel : RelVia D f (value t) (value u)
  left : p.Sees 0 t
  right : q.Sees 0 u

theorem Process.regs_forall₂ {S : Term → Term → Prop} {p q : Process}
    (h : ∀ r, S (p.reg r) (q.reg r)) : List.Forall₂ S p.regs.toList q.regs.toList := by
  apply List.forall₂_iff_get.mpr
  refine ⟨by simp, fun i hi hi' => ?_⟩
  simpa [Process.reg] using h ⟨i, by simpa using hi⟩

/-- Registers that hold only words seen before leave the heap well formed. -/
theorem Process.HeapOk.of_sees {lo : ℕ} {p q : Process} (h : p.HeapOk lo) (hheap : q.heap = p.heap)
    (hregs : ∀ r, p.Sees lo (q.reg r)) : q.HeapOk lo := by
  obtain ⟨⟨hfrom, hto, hcap, hhp, hsound⟩, hc⟩ := h
  have hmem : ∀ t ∈ q.regs.toList, p.Sees lo t := by
    intro t ht
    obtain ⟨i, hi, rfl⟩ := List.mem_iff_getElem.mp ht
    simpa [Process.reg] using hregs ⟨i, by simpa using hi⟩
  have hsound' := hsound.reroot hmem
  rw [← hheap] at hfrom hto hcap hhp hsound' hc
  exact ⟨⟨hfrom, hto, hcap, hhp, hsound'⟩, hc⟩

namespace Process.Similar

variable {D : Term → Term → Prop} {p q : Process} {f : Obj → Obj} (h : p.Similar D q f)
include h

theorem reg (r : Reg) : Process.Twins D p q f (p.reg r) (q.reg r) := by
  refine ⟨?_, h.heapOk.sees_reg r, h.heapOk'.sees_reg r⟩
  have hr := (List.forall₂_iff_get.mp h.sim.roots_rel).2 r (by simp) (by simp)
  simpa [Process.reg] using hr

/-- Registers that hold only counterparts of words seen before, with the same heaps. -/
theorem replace {p' q' : Process} (hp : p'.heap = p.heap) (hq : q'.heap = q.heap)
    (hregs : ∀ r, Process.Twins D p q f (p'.reg r) (q'.reg r)) : p'.Similar D q' f := by
  refine ⟨h.heapOk.of_sees hp fun r => (hregs r).left,
    h.heapOk'.of_sees hq fun r => (hregs r).right,
    ?_⟩
  rw [hp, hq]
  apply h.sim.reroot
  · intro o ho
    obtain ⟨t, ht, htarget⟩ := mem_map_value.mp ho
    obtain ⟨i, hi, rfl⟩ := List.mem_iff_getElem.mp ht
    have hleft := (hregs ⟨i, by simpa using hi⟩).left
    simp only [Process.reg, Vector.getElem_toList] at hleft htarget
    exact hleft.isLive o htarget
  · rw [List.forall₂_map_left_iff, List.forall₂_map_right_iff]
    exact Process.regs_forall₂ fun r => (hregs r).rel

/-- The counterpart of a reference refers to an object of the same kind. -/
theorem target_reg {r : Reg} {o : Obj} (ho : target (p.reg r) = some o) :
    target (q.reg r) = some (f o) ∧ (f o).label q.heap.fromSpace = o.label p.heap.fromSpace := by
  refine ⟨?_, h.sim.label_eq o (Process.live_target ho)⟩
  rw [target_map (h.reg r).rel, ho, Option.map_some]

theorem target_none {r : Reg} (ho : target (p.reg r) = none) : target (q.reg r) = none := by
  rw [target_map (h.reg r).rel, ho, Option.map_none]

/-- The counterpart of data is data. -/
theorem data {r : Reg} (hr : target (p.reg r) = none) : D (p.reg r) (q.reg r) := by
  have hrel := (h.reg r).rel
  simp only [value, hr, h.target_none hr] at hrel
  cases hrel with
  | inl hd => exact hd

theorem kind (r : Reg) :
    isBoxed (q.reg r) = isBoxed (p.reg r) ∧ isCons (q.reg r) = isCons (p.reg r) := by
  cases ho : target (p.reg r) with
  | none =>
      obtain ⟨hb, hc⟩ := MiniBeam.target_none ho
      obtain ⟨hb', hc'⟩ := MiniBeam.target_none (h.target_none ho)
      exact ⟨hb'.trans hb.symm, hc'.trans hc.symm⟩
  | some o =>
      obtain ⟨ho', hlabel⟩ := h.target_reg ho
      have hnot : ∀ {t : Term}, isBoxed t = true → isCons t = false := by
        intro t hb
        rw [← Bool.not_eq_true, isCons_iff, isBoxed_iff.mp hb]
        decide
      cases o with
      | cell off =>
          generalize f (.cell off) = o' at ho' hlabel
          cases o' with
          | tuple off' => cases hlabel
          | cell off' =>
              obtain ⟨hb, hc, -⟩ := target_cell ho
              obtain ⟨hb', hc', -⟩ := target_cell ho'
              exact ⟨hb'.trans hb.symm, hc'.trans hc.symm⟩
      | tuple off =>
          generalize f (.tuple off) = o' at ho' hlabel
          cases o' with
          | cell off' => cases hlabel
          | tuple off' =>
              have hb := (target_tuple ho).1
              have hb' := (target_tuple ho').1
              exact ⟨hb'.trans hb.symm, (hnot hb').trans (hnot hb).symm⟩

/-- Fields of corresponding objects correspond. -/
theorem field {o : Obj} (ho : p.Live o) {k : ℕ} {w w' : Term}
    (hw : (o.fields p.heap.fromSpace)[k]? = some w)
    (hw' : ((f o).fields q.heap.fromSpace)[k]? = some w') : RelVia D f (value w) (value w') := by
  have hrel := h.sim.fields_rel o ho
  simp only [graph, List.forall₂_map_left_iff, List.forall₂_map_right_iff] at hrel
  obtain ⟨hk, rfl⟩ := List.getElem?_eq_some_iff.mp hw
  obtain ⟨hk', rfl⟩ := List.getElem?_eq_some_iff.mp hw'
  exact (List.forall₂_iff_get.mp hrel).2 k hk hk'

/-- Both processes read the same part of corresponding cells. -/
theorem readCell {r : Reg} (hc : isCons (p.reg r) = true) {k : ℕ} (hk : k < 2) :
    ∃ w w', readWord p.heap.fromSpace (getCons (p.reg r) + k) = .ok w ∧
      readWord q.heap.fromSpace (getCons (q.reg r) + k) = .ok w' ∧ Process.Twins D p q f w w' := by
  obtain ⟨w, hread, hsees, ho, hfield⟩ := h.heapOk.readCell hc hk
  obtain ⟨w', hread', hsees', ho', hfield'⟩ := h.heapOk'.readCell ((h.kind r).2.trans hc) hk
  have hobj := Option.some.inj (ho'.symm.trans (h.target_reg ho).1)
  rw [hobj] at hfield'
  exact ⟨w, w', hread, hread', h.field (Process.live_target ho) hfield hfield', hsees, hsees'⟩

/-- Both processes find headers of one arity, and read the same elements. -/
theorem readTuple {r : Reg} (hb : isBoxed (p.reg r) = true) :
    ∃ hdr hdr', readWord p.heap.fromSpace (getBoxed (p.reg r)) = .ok hdr ∧
      readWord q.heap.fromSpace (getBoxed (q.reg r)) = .ok hdr' ∧ isTupleHdr hdr = true ∧
      isTupleHdr hdr' = true ∧ getTupleArity hdr' = getTupleArity hdr ∧
      ∀ k, k < getTupleArity hdr → ∃ w w',
        readWord p.heap.fromSpace (getBoxed (p.reg r) + (1 + k)) = .ok w ∧
        readWord q.heap.fromSpace (getBoxed (q.reg r) + (1 + k)) = .ok w' ∧
        Process.Twins D p q f w w' := by
  obtain ⟨ho, hdr, hread, isHdr, harity, helem⟩ := h.heapOk.readTuple hb
  obtain ⟨ho', hdr', hread', isHdr', harity', helem'⟩ :=
    h.heapOk'.readTuple ((h.kind r).1.trans hb)
  obtain ⟨hto, hlabel⟩ := h.target_reg ho
  have hobj := Option.some.inj (ho'.symm.trans hto)
  rw [← hobj, Obj.label, Obj.label, harity, harity', Option.some.injEq] at hlabel
  refine ⟨hdr, hdr', hread, hread', isHdr, isHdr', hlabel, fun k hk => ?_⟩
  obtain ⟨w, hw, hsees, hfield⟩ := helem k hk
  obtain ⟨w', hw', hsees', hfield'⟩ := helem' k (hlabel ▸ hk)
  rw [hobj] at hfield'
  exact ⟨w, w', hw, hw', h.field (Process.live_target ho) hfield hfield', hsees, hsees'⟩

end Process.Similar

theorem Immediates.twins {D : Term → Term → Prop} (hD : Immediates D) (p q : Process)
    (f : Obj → Obj) : Immediates (Process.Twins D p q f) := by
  have himm : ∀ t, isImmediate t = true → D t t → Process.Twins D p q f t t := by
    intro t ht hrel
    have hv : value t = .inl t := by simp [value, target_of_immediate (.inr ht)]
    exact ⟨hv ▸ .inl hrel, .data (.inr ht), .data (.inr ht)⟩
  exact ⟨fun v => himm _ (isImmediate_makeSmallint v) (hD.smallint v),
    fun b => himm _ (isImmediate_makePid b) (hD.pid b)⟩

/-! ### Instructions that allocate nothing -/

/-- The heaps are still those of `p` and `q`. -/
def Process.KeepsHeaps (p q : Process) (a b : Heap) : Prop := a = p.heap ∧ b = q.heap

/-- The same process up to its registers, its heap and its scheduling data. -/
abbrev Process.Alike (p q : Process) : Prop := p.Matched (fun _ _ => True) (fun _ _ => True) q

section Run

variable {D : Term → Term → Prop} {p q : Process} {f : Obj → Obj}

theorem Instr.run_similar (hD : Immediates D) (hal : Hal) (scheduled : Bool) (preOpPc : ℕ)
    (t : Trace) {i : Instr} (halloc : ¬ i.Allocates) (h : p.Similar D q f) (hm : p.Alike q)
    (hi : i.SameInts p q) :
    Results (Alike (Process.Twins D p q f) (Process.KeepsHeaps p q) (SameControl p q))
      (i.run hal scheduled preOpPc p t) (i.run hal scheduled preOpPc q t) := by
  have hmatched : p.Matched (Process.Twins D p q f) (Process.KeepsHeaps p q) q :=
    hm.mono h.reg ⟨rfl, rfl⟩
  by_cases hheap : i.OnHeap
  · cases i with
    | tupleElem dst tuple index =>
        simp only [Instr.run, (h.kind tuple).1]
        split
        · rename_i hb
          obtain ⟨hdr, hdr', hread, hread', isHdr, isHdr', harity, helem⟩ := h.readTuple hb
          simp only [hread, hread', ok_bind, isHdr, isHdr', harity, not_true_eq_false, if_false]
          split
          · rename_i hidx
            obtain ⟨w, w', hw, hw', htwins⟩ := helem _ hidx
            rw [hw, hw']
            exact .ok ⟨rfl, hmatched.setReg dst htwins, fun hc => hc.setReg .., rfl⟩
          · exact .ok ⟨rfl, hmatched, id, rfl⟩
        · exact .ok ⟨rfl, hmatched, id, rfl⟩
    | head dst cell =>
        simp only [Instr.run, (h.kind cell).2]
        split
        · rename_i hc
          obtain ⟨w, w', hw, hw', htwins⟩ := h.readCell hc Nat.zero_lt_two
          rw [Nat.add_zero] at hw hw'
          rw [hw, hw']
          exact .ok ⟨rfl, hmatched.setReg dst htwins, fun hc => hc.setReg .., rfl⟩
        · exact .ok ⟨rfl, hmatched, id, rfl⟩
    | tail dst cell =>
        simp only [Instr.run, (h.kind cell).2]
        split
        · rename_i hc
          obtain ⟨w, w', hw, hw', htwins⟩ := h.readCell hc Nat.one_lt_two
          rw [hw, hw']
          exact .ok ⟨rfl, hmatched.setReg dst htwins, fun hc => hc.setReg .., rfl⟩
        · exact .ok ⟨rfl, hmatched, id, rfl⟩
    | makeTuple | cons => exact absurd trivial halloc
    | _ => exact hheap.elim
  · exact Instr.run_matched (hD.twins p q f) hal scheduled preOpPc t hheap hmatched hi

end Run

/-! ### New objects -/

section Place

variable {D : Term → Term → Prop} {p q p' q' : Process} {f : Obj → Obj} {dst : Reg} {o o' : Obj}
  {label : Option ℕ} {words words' : List Term}

/-- The objects that the registers reached before a new one was stored. -/
theorem Process.Stores.live_iff (hp : p.HeapOk 0) (hs : p.Stores dst o label words p') {a : Obj} :
    Reach (graph p'.heap.fromSpace) (p.regs.toList.map value) a ↔ p.Live a :=
  Reach.congr fun _ hv =>
    congrArg (List.map value) ((hp.wellFormed.sound.fits hv).fields_congr hs.below)

/-- No object stood before where the new one stands. -/
theorem Process.Stores.not_live (hp : p.HeapOk 0) (hs : p.Stores dst o label words p') :
    ¬ p.Live o := by
  intro ho
  have hbelow := (hp.wellFormed.sound.fits ho).below
  have := o.size_pos p.heap.fromSpace
  rw [hs.off] at hbelow
  omega

/-- The fields of the new object refer to objects that were live before. -/
theorem Process.Stores.fields_live (hp : p.HeapOk 0) (hs : p.Stores dst o label words p')
    (hwords : ∀ t ∈ words, p.Sees 0 t) {a : Obj}
    (ha : Sum.inr a ∈ (graph p'.heap.fromSpace).fields o) :
    Reach (graph p'.heap.fromSpace) (p.regs.toList.map value) a := by
  obtain ⟨t, ht, htarget⟩ := mem_map_value.mp ha
  rw [hs.fields] at ht
  exact (hs.live_iff hp).mpr ((hwords t ht).isLive a htarget)

/-- The registers refer to the new object and to objects that were live before. -/
theorem Process.Stores.regs_live (hp : p.HeapOk 0) (hs : p.Stores dst o label words p') {a : Obj}
    (ha : Sum.inr a ∈ p'.regs.toList.map value) :
    a = o ∨ Reach (graph p'.heap.fromSpace) (p.regs.toList.map value) a := by
  obtain ⟨t, ht, htarget⟩ := mem_map_value.mp ha
  rw [hs.eq] at ht
  rcases Process.mem_setReg ht with rfl | ht
  · exact .inl (Option.some.inj (htarget.symm.trans hs.new))
  · exact .inr ((hs.live_iff hp).mpr (.root (mem_map_value.mpr ⟨t, ht, htarget⟩)))

theorem Process.Stores.live_or (hp : p.HeapOk 0) (hs : p.Stores dst o label words p')
    (hwords : ∀ t ∈ words, p.Sees 0 t) {a : Obj} (ha : p'.Live a) : a = o ∨ p.Live a := by
  have hlive := ha.of_roots_or (fun v => hs.fields_live hp hwords) fun v => hs.regs_live hp
  exact hlive.imp_right (hs.live_iff hp).mp

/-- New objects with the same label and corresponding words. -/
theorem Process.Similar.place (h : p.Similar D q f) (hs : p.Stores dst o label words p')
    (hs' : q.Stores dst o' label words' q')
    (hwords : List.Forall₂ (Process.Twins D p q f) words words') :
    p'.Similar D q' (Function.update f o o') := by
  have hseen : ∀ t ∈ words, p.Sees 0 t := fun t ht =>
    (forall₂_mem_left hwords ht).elim fun _ hu => hu.2.left
  have hseen' : ∀ t ∈ words', q.Sees 0 t := fun t ht =>
    (forall₂_mem_left hwords.flip ht).elim fun _ hu => hu.2.right
  have hfits := fun a (ha : p.Live a) => h.heapOk.wellFormed.sound.fits ha
  have hfits' := fun a (ha : p.Live a) => h.heapOk'.wellFormed.sound.fits (h.sim.reach ha)
  refine ⟨hs.heapOk h.heapOk hseen, hs'.heapOk h.heapOk' hseen', ?_⟩
  have hold : SimVia D (graph p'.heap.fromSpace) (p.regs.toList.map value)
      (graph q'.heap.fromSpace) (q.regs.toList.map value) f := by
    apply h.sim.congr
    · exact fun a ha => (hfits a ha).label_congr hs.below
    · exact fun a ha => congrArg (List.map value) ((hfits a ha).fields_congr hs.below)
    · exact fun a ha => (hfits' a ha).label_congr hs'.below
    · exact fun a ha => congrArg (List.map value) ((hfits' a ha).fields_congr hs'.below)
  have hregs : ∀ r, RelVia D (Function.update f o o') (value (p'.reg r)) (value (q'.reg r)) := by
    intro r
    rw [hs.reg, hs'.reg]
    split
    · rw [value_inr.mpr hs.new, value_inr.mpr hs'.new]
      exact .inr (Function.update_self ..)
    · refine (h.reg r).rel.congr_map fun a ha => Function.update_of_ne (fun he => ?_) _ _
      exact hs.not_live h.heapOk (he ▸ Process.live_target (value_inr.mp ha))
  apply hold.extend
  · rw [hs.live_iff h.heapOk]
    exact hs.not_live h.heapOk
  · rw [hs'.live_iff h.heapOk']
    exact hs'.not_live h.heapOk'
  · exact hs'.label_eq.trans hs.label_eq.symm
  · exact fun a => hs.fields_live h.heapOk hseen
  · show List.Forall₂ _ ((o.fields _).map value) ((o'.fields _).map value)
    rw [hs.fields, hs'.fields, List.forall₂_map_left_iff, List.forall₂_map_right_iff]
    exact hwords.imp fun _ _ htwins => htwins.rel
  · exact fun a => hs.regs_live h.heapOk
  · rw [List.forall₂_map_left_iff, List.forall₂_map_right_iff]
    exact Process.regs_forall₂ hregs

end Place

/-! ### Live words -/

section LiveWords

variable {D : Term → Term → Prop} {p q : Process} {f : Obj → Obj} {n : ℕ}

theorem Obj.size_of_label {space space' : List Term} {o o' : Obj}
    (h : o'.label space' = o.label space) : o'.size space' = o.size space := by
  cases o with
  | cell off =>
      cases o' with
      | cell off' => rfl
      | tuple off' => cases h
  | tuple off =>
      cases o' with
      | cell off' => cases h
      | tuple off' =>
          simp only [Obj.label, Option.some.injEq] at h
          simp only [Obj.size, h]

/-- Similar graphs take equally many words. -/
theorem LiveWords.sim {space space' roots roots' : List Term}
    (h : SimVia D (graph space) (roots.map value) (graph space') (roots'.map value) f)
    (hn : LiveWords space roots n) : LiveWords space' roots' n := by
  obtain ⟨objs, hnodup, hmem, rfl⟩ := hn
  refine ⟨objs.map f, ?_, fun o' => ?_, ?_⟩
  · exact hnodup.map_on fun a ha b hb he => h.inj ((hmem a).mp ha) ((hmem b).mp hb) he
  · rw [List.mem_map]
    constructor
    · rintro ⟨o, ho, rfl⟩
      exact h.reach ((hmem o).mp ho)
    · intro ho
      obtain ⟨o, hlive, rfl⟩ := h.exists_of_reach ho
      exact ⟨o, (hmem o).mpr hlive, rfl⟩
  · rw [List.map_map]
    congr 1
    exact List.map_congr_left fun o ho => Obj.size_of_label (h.label_eq o ((hmem o).mp ho))

theorem Process.Similar.liveWords_iff (h : p.Similar D q f) :
    LiveWords q.heap.fromSpace q.regs.toList n ↔ LiveWords p.heap.fromSpace p.regs.toList n := by
  constructor
  · intro hn
    obtain ⟨e, he, -⟩ := h.sim.symm
    exact hn.sim he
  · exact fun hn => hn.sim h.sim

/-- The live objects lie below `hp`. -/
theorem LiveWords.le_hp {lo : ℕ} (h : p.HeapOk lo)
    (hn : LiveWords p.heap.fromSpace p.regs.toList n) :
    n ≤ p.heap.hp := by
  obtain ⟨objs, hnodup, hmem, rfl⟩ := hn
  refine Layout.sum_le_of_disjoint hnodup
    (fun o ho => (h.wellFormed.sound.fits ((hmem o).mp ho)).below) ?_
  exact fun o ho a ha hne => h.wellFormed.sound.apart o a ((hmem o).mp ho) ((hmem a).mp ha) hne

end LiveWords

end MiniBeam
