import MiniBeam.Verification.Heap.Collect

/-! A collection preserves the graph of the live objects and keeps nothing else. -/

namespace MiniBeam

open Layout (slice addr)
open RootedGraph

section Result

variable {old : List Term} {hp₀ cap lo : ℕ} {live may : Obj → Prop}
  (hold : Old old hp₀ cap lo live may)
  {heap : Heap} {objs : List Obj}
include hold

/-- Where a copied object stands in the new space. -/
theorem Copied.slice_new (h : Copied old cap live may heap objs heap.hp) {o : Obj} (ho : o ∈ objs) :
    slice heap.fromSpace (addr (Obj.words old) objs o) (o.size old) =
      (o.words old).map (relocate (addr (Obj.words old) objs)) := by
  have hlen := hold.length_words (h.isLive o ho)
  have hle := Layout.addr_add_length_le (Obj.words old) ho
  have himage : heap.fromSpace.take heap.hp =
      (objs.flatMap (Obj.words old)).map (relocate (addr (Obj.words old) objs)) := by
    rw [h.image, h.hp_eq, List.take_length, List.drop_length, List.append_nil]
  rw [← h.hp_eq, hlen] at hle
  rw [← Layout.slice_take hle, himage, Layout.slice_map, ← hlen, Layout.slice_addr ho]

/-- The header of a copied tuple is the header of the tuple. -/
theorem Copied.tuple_new (h : Copied old cap live may heap objs heap.hp) {off : ℕ}
    (ho : Obj.tuple off ∈ objs) :
    ∃ hdr, old[off]? = some hdr ∧ isTupleHdr hdr = true ∧
      heap.fromSpace[addr (Obj.words old) objs (.tuple off)]? = some hdr ∧
      slice heap.fromSpace (addr (Obj.words old) objs (.tuple off) + 1) (Obj.arity old off) =
        (Obj.fields old (.tuple off)).map (relocate (addr (Obj.words old) objs)) := by
  obtain ⟨hdr, hhdr, hishdr, -, hwords⟩ := hold.words_tuple (h.isLive _ ho)
  have hslice := h.slice_new hold ho
  have hsize : Obj.size old (.tuple off) = Obj.arity old off + 1 := Nat.add_comm ..
  rw [hwords, List.map_cons, relocate_none (target_hdr hishdr), hsize] at hslice
  have hfirst : heap.fromSpace[addr (Obj.words old) objs (.tuple off)]? = some hdr := by
    have hget := Layout.getElem?_slice (l := heap.fromSpace)
      (i := addr (Obj.words old) objs (.tuple off)) (Nat.succ_pos (Obj.arity old off))
    rw [Nat.add_zero] at hget
    rw [← hget, hslice, List.getElem?_cons_zero]
  refine ⟨hdr, hhdr, hishdr, hfirst, ?_⟩
  rw [Layout.slice_succ hfirst, List.cons.injEq] at hslice
  exact hslice.2

theorem Copied.size_new (h : Copied old cap live may heap objs heap.hp) {o : Obj} (ho : o ∈ objs) :
    (o.moveTo (addr (Obj.words old) objs o)).size heap.fromSpace = o.size old := by
  cases o with
  | cell off => rfl
  | tuple off =>
      obtain ⟨hdr, hhdr, -, hnew, -⟩ := h.tuple_new hold ho
      simp only [Obj.moveTo, Obj.size, Obj.arity_eq hhdr, Obj.arity_eq hnew]

theorem Copied.label_new (h : Copied old cap live may heap objs heap.hp) {o : Obj} (ho : o ∈ objs) :
    (o.moveTo (addr (Obj.words old) objs o)).label heap.fromSpace = o.label old := by
  cases o with
  | cell off => rfl
  | tuple off =>
      obtain ⟨hdr, hhdr, -, hnew, -⟩ := h.tuple_new hold ho
      simp only [Obj.moveTo, Obj.label, Obj.arity_eq hhdr, Obj.arity_eq hnew]

theorem Copied.fields_new (h : Copied old cap live may heap objs heap.hp)
    {o : Obj} (ho : o ∈ objs) :
    (o.moveTo (addr (Obj.words old) objs o)).fields heap.fromSpace =
      (o.fields old).map (relocate (addr (Obj.words old) objs)) := by
  cases o with
  | cell off => exact h.slice_new hold ho
  | tuple off =>
      obtain ⟨hdr, hhdr, -, hnew, hslice⟩ := h.tuple_new hold ho
      rw [← hslice, Obj.moveTo, Obj.fields, Obj.arity_eq hhdr, Obj.arity_eq hnew]

omit hold in
theorem Obj.fields_subset_words (space : List Term) (o : Obj) :
    ∀ t ∈ o.fields space, t ∈ o.words space := by
  intro t ht
  cases o with
  | cell off => exact ht
  | tuple off =>
      obtain ⟨k, hk⟩ := List.mem_iff_getElem?.mp ht
      have hlt : k < arity space off := by
        have := (List.getElem?_eq_some_iff.mp hk).1
        simp only [fields, slice, List.length_take] at this
        omega
      refine List.mem_iff_getElem?.mpr ⟨k + 1, ?_⟩
      rw [fields, Layout.getElem?_slice hlt] at hk
      rw [words, Obj.off, size, Layout.getElem?_slice (by omega), ← hk]
      congr 1
      omega

omit hold in
/-- What the fields of a copied object refer to was copied too. -/
theorem Copied.fields_mem (h : Copied old cap live may heap objs heap.hp)
    {o a : Obj} (ho : o ∈ objs)
    {t : Term} (ht : t ∈ o.fields old) (ha : target t = some a) : a ∈ objs := by
  refine h.closed t ?_ a ha
  rw [h.hp_eq, List.take_length]
  exact List.mem_flatMap.mpr ⟨o, ho, Obj.fields_subset_words old o t ht⟩

omit hold in
/-- If what the roots refer to was copied, then all live objects were. -/
theorem Copied.all_live {roots : List Term} (h : Copied old cap live may heap objs heap.hp)
    (hroots : ∀ t ∈ roots, ∀ o, target t = some o → o ∈ objs) {o : Obj} (ho : Live old roots o) :
    o ∈ objs := by
  refine ho.subset (fun v hv => ?_) fun u v hu hv => ?_
  · obtain ⟨t, ht, htarget⟩ := mem_map_value.mp hv
    exact hroots t ht v htarget
  · obtain ⟨t, ht, htarget⟩ := mem_map_value.mp hv
    exact h.fields_mem hu ht htarget

theorem Copied.addr_lt (h : Copied old cap live may heap objs heap.hp) {o : Obj} (ho : o ∈ objs) :
    addr (Obj.words old) objs o < maxOffset := by
  have hlt := hold.addr_lt h.nodup h.isLive ho
  have hcap := hold.cap_le
  have := hold.hp_le
  simp only [heapWords, maxOffset] at hcap ⊢
  omega

/-- A copied object lies below the new `hp`. -/
theorem Copied.fits_new (h : Copied old cap live may heap objs heap.hp) {o : Obj} (ho : o ∈ objs) :
    (o.moveTo (addr (Obj.words old) objs o)).Fits heap.fromSpace heap.hp lo := by
  have hle := Layout.addr_add_length_le (Obj.words old) ho
  rw [hold.length_words (h.isLive o ho), ← h.hp_eq] at hle
  refine ⟨?_, fun off hoff => ?_⟩
  · rw [h.size_new hold ho, Obj.off_moveTo]
    exact hle
  · cases o with
    | cell off' => cases hoff
    | tuple off' =>
        cases hoff
        obtain ⟨hdr, hhdr, hishdr, hnew, -⟩ := h.tuple_new hold ho
        obtain ⟨hdr', hhdr', -, hlo, hmost⟩ := (hold.fits _ (h.isLive _ ho)).header off' rfl
        rw [hhdr, Option.some.injEq] at hhdr'
        exact ⟨hdr, hnew, hishdr, hhdr' ▸ hlo, hhdr' ▸ hmost⟩

/-- A legal word whose object was copied is a legal word of the new space. -/
theorem Copied.wordOk_new (h : Copied old cap live may heap objs heap.hp) {t : Term}
    (ht : Legal live t) (hmem : ∀ o, target t = some o → o ∈ objs) :
    WordOk heap.fromSpace heap.hp lo (relocate (addr (Obj.words old) objs) t) := by
  have htarget := target_relocate (addr (Obj.words old) objs) t
    fun o ho => h.addr_lt hold (hmem o ho)
  refine WordOk.of_target (fun hn => ?_) fun o' ho' => ?_
  · rw [htarget, Option.map_eq_none_iff] at hn
    rw [relocate_none hn]
    exact ht.data hn
  · rw [htarget, Option.map_eq_some_iff] at ho'
    obtain ⟨o, ho, rfl⟩ := ho'
    exact h.fits_new hold (hmem o ho)

end Result

/-! ### The collector -/

/-- What a collection does: `f` moves the live objects. -/
structure Collected (lo : ℕ) (heap : Heap) (roots : List Term) (heap' : Heap)
    (roots' : List Term) (f : Obj → Obj) (objs : List Obj) : Prop where
  iso : IsoVia (graph heap.fromSpace) (roots.map value) (graph heap'.fromSpace)
    (roots'.map value) f
  nodup : objs.Nodup
  mem : ∀ o, o ∈ objs ↔ Live heap.fromSpace roots o
  hp_eq : heap'.hp = (objs.map (Obj.size heap.fromSpace)).sum
  hp_le : heap'.hp ≤ heap.hp
  capacity : heap'.capacity = heap.capacity
  wellFormed : heap'.WellFormed lo roots'

theorem Heap.WellFormed.start {heap : Heap} {lo : ℕ} {roots : List Term} (may : Obj → Prop)
    (h : heap.WellFormed lo roots) :
    Copied heap.fromSpace heap.capacity (Live heap.fromSpace roots) may
      { heap with fromSpace := heap.toSpace, toSpace := heap.fromSpace, hp := 0 } [] 0 where
  newLength := h.toLength
  oldLength := h.fromLength
  nodup := List.nodup_nil
  isLive := by simp
  mayMove := by simp
  hp_eq := rfl
  scan_le := Nat.le_refl 0
  image := rfl
  closed := by simp
  forward := by simp
  intact _ _ _ := rfl

/-- A collection that moves only objects with room for their records ends, and stays inside
both spaces. -/
theorem Heap.WellFormed.gc_copied {heap : Heap} {lo : ℕ} {roots : List Term} {may : Obj → Prop}
    (h : heap.WellFormed lo roots)
    (hold : Old heap.fromSpace heap.hp heap.capacity lo (Live heap.fromSpace roots) may)
    (hadmits : Admits heap.fromSpace heap.capacity (Live heap.fromSpace roots) may
      (gcCalls heap roots)) :
    ∃ objs done, mbHeapGc heap roots =
        .ok (roots.map (relocate (addr (Obj.words heap.fromSpace) objs)),
          { done with
            toSpace := List.replicate done.capacity 0
            gcCount := done.gcCount + 1 }) ∧
      done.capacity = heap.capacity ∧
      Copied heap.fromSpace heap.capacity (Live heap.fromSpace roots) may done objs done.hp ∧
      (∀ t ∈ roots, ∀ o, target t = some o → o ∈ objs) ∧
      Finds heap.fromSpace [] roots objs ∧
      Visited heap.fromSpace heap.capacity (Live heap.fromSpace roots) may objs
        (gcCalls heap roots) := by
  obtain ⟨heap₁, objs, hroots, hcap₁, -, hcopied₁, hmem, hfinds₁⟩ :=
    (h.start may).copyRoots hold (fun t (ht : t ∈ roots) =>
      .of_wordOk (h.sound.rootsOk t ht) fun o ho => .root (mem_map_value.mpr ⟨t, ht, ho⟩))
      hadmits.left
  rw [List.nil_append] at hroots hcopied₁ hmem
  simp only [gcCalls, hroots] at hadmits ⊢
  obtain ⟨done, more, hloop, hcap₂, -, hcopied₂, hfinds₂, hvisited₂⟩ :=
    hcopied₁.scanLoop hold (heap₁.fromSpace.length + 1) (hold.stream hcopied₁.isLive)
      (Nat.succ_pos _) (by rw [hcopied₁.newLength]; omega) hadmits.right
  have hqueue := hfinds₁ [] (objs ++ more)
  simp only [List.nil_append, List.append_nil] at hqueue
  rw [List.drop_zero] at hfinds₂
  obtain ⟨hfinds, hvisited₁⟩ := hqueue hfinds₂
  refine ⟨objs ++ more, done, ?_, hcap₂.trans hcap₁, hcopied₂, fun t ht o ho =>
    List.mem_append_left _ (hmem t ht o ho), hfinds, hvisited₁.append hvisited₂⟩
  have hsame : roots.map (relocate (addr (Obj.words heap.fromSpace) (objs ++ more))) =
      roots.map (relocate (addr (Obj.words heap.fromSpace) objs)) :=
    List.map_congr_left fun t ht => relocate_congr fun o ho =>
      Layout.addr_append_of_mem (hmem t ht o ho) more
  simp only [mbHeapGc, hroots, hloop, ok_bind, pure_ok, hsame]

/-- The collector ends, and stays inside both spaces. -/
theorem mbHeapGc_copied {heap : Heap} {lo : ℕ} {roots : List Term}
    (h : heap.WellFormed lo roots) (hrec : heap.RecordsFit roots) :
    ∃ objs done, mbHeapGc heap roots =
        .ok (roots.map (relocate (addr (Obj.words heap.fromSpace) objs)),
          { done with
            toSpace := List.replicate done.capacity 0
            gcCount := done.gcCount + 1 }) ∧
      done.capacity = heap.capacity ∧
      Copied heap.fromSpace heap.capacity (Live heap.fromSpace roots) (fun _ => True) done objs
        done.hp ∧
      (∀ t ∈ roots, ∀ o, target t = some o → o ∈ objs) ∧
      Finds heap.fromSpace [] roots objs := by
  obtain ⟨objs, done, hrun, hcap, hcopied, hmem, hfinds, -⟩ :=
    h.gc_copied (h.old (fun _ => True) fun o ho _ => hrec o ho)
      fun _ _ _ _ _ _ _ _ _ => trivial
  exact ⟨objs, done, hrun, hcap, hcopied, hmem, hfinds⟩

/-- The collector moves the live objects behind one another, in the order of a breadth-first
walk. -/
theorem mbHeapGc_collected {heap : Heap} {lo : ℕ} {roots : List Term}
    (h : heap.WellFormed lo roots) (hrec : heap.RecordsFit roots) :
    ∃ heap' objs, mbHeapGc heap roots =
        .ok (roots.map (relocate (addr (Obj.words heap.fromSpace) objs)), heap') ∧
      Finds heap.fromSpace [] roots objs ∧
      Collected lo heap roots heap' (roots.map (relocate (addr (Obj.words heap.fromSpace) objs)))
        (fun o => o.moveTo (addr (Obj.words heap.fromSpace) objs o)) objs := by
  have hold := h.old (fun _ => True) fun o ho _ => hrec o ho
  obtain ⟨objs, done, hrun, hcap, hcopied, hroots, hfinds⟩ := mbHeapGc_copied h hrec
  generalize hold_eq : heap.fromSpace = old at *
  let at_ := addr (Obj.words old) objs
  let f : Obj → Obj := fun o => o.moveTo (at_ o)
  have hmem : ∀ o, o ∈ objs ↔ Live old roots o := fun o =>
    ⟨hcopied.isLive o, hcopied.all_live hroots⟩
  have hvalue : ∀ t, (∀ o, target t = some o → o ∈ objs) →
      value (relocate at_ t) = mapRef f (value t) := fun t ht =>
    value_relocate fun o ho => hcopied.addr_lt hold (ht o ho)
  have hvalues : ∀ l : List Term, (∀ t ∈ l, ∀ o, target t = some o → o ∈ objs) →
      (l.map (relocate at_)).map value = (l.map value).map (mapRef f) := by
    intro l hl
    rw [List.map_map, List.map_map]
    exact List.map_congr_left fun t ht => hvalue t (hl t ht)
  have hinj : Set.InjOn f {o | Live old roots o} := by
    intro o ho o' ho' he
    by_contra hne
    have hoff : at_ o = at_ o' := by simpa [f] using congrArg Obj.off he
    have hsep := Layout.addr_disjoint (Obj.words old) ((hmem o).mpr ho)
      ((hmem o').mpr ho') hne
    have hsize := o.size_pos old
    have hsize' := o'.size_pos old
    rw [hold.length_words ho, hold.length_words ho'] at hsep
    simp only [at_] at hoff
    omega
  have hiso : IsoVia (graph old) (roots.map value) (graph done.fromSpace)
      ((roots.map (relocate at_)).map value) f := by
    refine ⟨hinj, hvalues roots hroots, fun o ho => ?_, fun o ho => ?_⟩
    · exact hcopied.label_new hold ((hmem o).mpr ho)
    · show ((f o).fields done.fromSpace).map value = ((o.fields old).map value).map (mapRef f)
      rw [hcopied.fields_new hold ((hmem o).mpr ho)]
      exact hvalues _ fun t ht a ha => hcopied.fields_mem ((hmem o).mpr ho) ht ha
  have hsum : done.hp = (objs.map (Obj.size old)).sum := by
    rw [hcopied.hp_eq, List.length_flatMap]
    congr 1
    exact List.map_congr_left fun o ho => hold.length_words (hcopied.isLive o ho)
  have hhp : done.hp ≤ heap.hp := hcopied.hp_eq ▸ hold.room hcopied.nodup hcopied.isLive
  refine ⟨_, objs, hrun, hfinds, ?_⟩
  subst hold_eq
  refine ⟨hiso, hcopied.nodup, hmem, hsum, hhp, hcap, ?_⟩
  refine ⟨hcopied.newLength.trans hcap.symm, by simp, hcap ▸ h.capacity_le,
    hhp.trans (hcap ▸ h.hp_le), ?_, ?_, ?_⟩
  · intro t' ht'
    obtain ⟨t, ht, rfl⟩ := List.mem_map.mp ht'
    exact hcopied.wordOk_new hold (.of_wordOk (h.sound.rootsOk t ht) fun o ho =>
      .root (mem_map_value.mpr ⟨t, ht, ho⟩)) (hroots t ht)
  · intro o' ho' t' ht'
    obtain ⟨o, ho, rfl⟩ := hiso.exists_of_reach ho'
    have hfields := hcopied.fields_new hold ((hmem o).mpr ho)
    dsimp only at ht'
    rw [hfields] at ht'
    obtain ⟨t, ht, rfl⟩ := List.mem_map.mp ht'
    exact hcopied.wordOk_new hold (hold.fields o ho t ht) fun a ha =>
      hcopied.fields_mem ((hmem o).mpr ho) ht ha
  · intro o' a' ho' ha' hne
    obtain ⟨o, ho, rfl⟩ := hiso.exists_of_reach ho'
    obtain ⟨a, ha, rfl⟩ := hiso.exists_of_reach ha'
    have hne' : o ≠ a := fun he => hne (by rw [he])
    have hsep := Layout.addr_disjoint (Obj.words heap.fromSpace) ((hmem o).mpr ho)
      ((hmem a).mpr ha) hne'
    rw [hold.length_words ho, hold.length_words ha] at hsep
    have hso := hcopied.size_new hold ((hmem o).mpr ho)
    have hsa := hcopied.size_new hold ((hmem a).mpr ha)
    unfold Apart
    dsimp only
    rw [hso, hsa, Obj.off_moveTo, Obj.off_moveTo]
    exact hsep

/-- The forwarding record of an object of two words fits into the object. -/
theorem Heap.WellFormed.recordFits {heap : Heap} {lo : ℕ} {roots : List Term}
    (h : heap.WellFormed lo roots) {o : Obj} (ho : Live heap.fromSpace roots o)
    (htwo : 2 ≤ o.size heap.fromSpace) :
    RecordFits heap.capacity (Live heap.fromSpace roots) o := by
  have hbelow := (h.sound.fits ho).below
  have hhp := h.hp_le
  refine ⟨by omega, fun o' ho' he => ?_⟩
  have hne : o' ≠ o := fun h => by
    rw [h] at he
    omega
  have hsep := h.sound.apart o' o ho' ho hne
  have := o'.size_pos heap.fromSpace
  unfold Apart at hsep
  omega

/-- Without empty tuples every object is at least as large as its forwarding record. -/
theorem Heap.WellFormed.recordsFit {heap : Heap} {roots : List Term}
    (h : heap.WellFormed 1 roots) : heap.RecordsFit roots := by
  intro o ho
  apply h.recordFits ho
  cases o with
  | cell off => exact Nat.le_refl 2
  | tuple off =>
      obtain ⟨hdr, hhdr, -, hlo, -⟩ := (h.sound.fits ho).header off rfl
      rw [Obj.size, Obj.arity_eq hhdr]
      omega

/-- Cheney's collection preserves the live graph exactly: it ends without leaving either
space, the live objects before and after correspond one to one with their roots, kinds,
arities, data and references, and the new heap holds these objects and nothing else. -/
theorem mbHeapGc_preserves_graph {heap : Heap} {roots : List Term}
    (h : heap.WellFormed 1 roots) :
    ∃ (roots' : List Term) (heap' : Heap) (f : Obj → Obj) (objs : List Obj),
      mbHeapGc heap roots = .ok (roots', heap') ∧
      Set.BijOn f {o | Live heap.fromSpace roots o} {o | Live heap'.fromSpace roots' o} ∧
      roots'.map value = (roots.map value).map (mapRef f) ∧
      (∀ o, Live heap.fromSpace roots o →
        (f o).label heap'.fromSpace = o.label heap.fromSpace ∧
        ((f o).fields heap'.fromSpace).map value =
          ((o.fields heap.fromSpace).map value).map (mapRef f)) ∧
      (objs.Nodup ∧ ∀ o, o ∈ objs ↔ Live heap.fromSpace roots o) ∧
      heap'.hp = (objs.map (Obj.size heap.fromSpace)).sum ∧ heap'.hp ≤ heap.hp ∧
      heap'.capacity = heap.capacity ∧ heap'.WellFormed 1 roots' := by
  obtain ⟨heap', objs, hrun, -, hc⟩ := mbHeapGc_collected h h.recordsFit
  exact ⟨_, heap', _, objs, hrun, hc.iso.bijOn, hc.iso.roots_eq,
    fun o ho => ⟨hc.iso.label_eq o ho, hc.iso.fields_eq o ho⟩, ⟨hc.nodup, hc.mem⟩, hc.hp_eq,
    hc.hp_le, hc.capacity, hc.wellFormed⟩

/-- A cell and a tuple that refer to each other, behind two words of garbage. -/
def knot : Heap where
  fromSpace := [0, 0, makeSmallint 5, makeBoxed 4, makeTupleHdr 1, makeCons 2] ++
    List.replicate 122 0
  toSpace := List.replicate 128 0
  hp := 6
  capacity := 128
  gcCount := 0

theorem knot_cell : Obj.fields knot.fromSpace (.cell 2) = [makeSmallint 5, makeBoxed 4] := rfl

theorem knot_tuple : Obj.fields knot.fromSpace (.tuple 4) = [makeCons 2] := rfl

theorem knot_live {o : Obj} (h : Live knot.fromSpace [makeCons 2] o) :
    o = .cell 2 ∨ o = .tuple 4 := by
  refine h.subset (P := fun o => o = .cell 2 ∨ o = .tuple 4) (fun v hv => ?_)
    fun u v hu hv => ?_
  · obtain ⟨t, ht, htarget⟩ := mem_map_value.mp hv
    rw [List.mem_singleton.mp ht] at htarget
    exact .inl (Option.some.inj (htarget.symm.trans (by decide)))
  · obtain ⟨t, ht, htarget⟩ := mem_map_value.mp hv
    rcases hu with rfl | rfl
    · rw [knot_cell] at ht
      rcases List.mem_pair.mp ht with rfl | rfl
      · rw [show target (makeSmallint 5) = none by decide] at htarget
        cases htarget
      · exact .inr (Option.some.inj (htarget.symm.trans (by decide)))
    · rw [knot_tuple] at ht
      rw [List.mem_singleton.mp ht] at htarget
      exact .inl (Option.some.inj (htarget.symm.trans (by decide)))

theorem knot_wellFormed : knot.WellFormed 1 [makeCons 2] := by
  have hcell : WordOk knot.fromSpace knot.hp 1 (makeCons 2) := .cons (by decide) (by decide)
  have htuple : WordOk knot.fromSpace knot.hp 1 (makeBoxed 4) :=
    .boxed (makeTupleHdr 1) (by decide) (by decide) (by decide) (by decide) (by decide) (by decide)
  have hint : WordOk knot.fromSpace knot.hp 1 (makeSmallint 5) := .immediate (by decide)
  refine ⟨by simp [knot], by simp [knot], by decide, by decide, fun t ht => ?_, fun o ho t ht => ?_,
    fun o o' ho ho' hne => ?_⟩
  · rwa [List.mem_singleton.mp ht]
  · rcases knot_live ho with rfl | rfl
    · rw [knot_cell] at ht
      rcases List.mem_pair.mp ht with rfl | rfl
      · exact hint
      · exact htuple
    · rw [knot_tuple] at ht
      rwa [List.mem_singleton.mp ht]
  · rcases knot_live ho with rfl | rfl <;> rcases knot_live ho' with rfl | rfl
    · exact absurd rfl hne
    · exact .inl (by decide)
    · exact .inr (by decide)
    · exact absurd rfl hne

/-- The knot survives, and the garbage in front of it does not. -/
theorem mbHeapGc_preserves_graph_knot :
    ∃ (roots' : List Term) (heap' : Heap) (f : Obj → Obj) (objs : List Obj),
      mbHeapGc knot [makeCons 2] = .ok (roots', heap') ∧
      Set.BijOn f {o | Live knot.fromSpace [makeCons 2] o} {o | Live heap'.fromSpace roots' o} ∧
      heap'.hp = (objs.map (Obj.size knot.fromSpace)).sum ∧ heap'.hp = 4 := by
  have hhp : (mbHeapGc knot [makeCons 2]).map (fun r => r.2.hp) = .ok 4 := by decide +kernel
  obtain ⟨roots', heap', f, objs, hrun, hbij, -, -, -, hsum, -⟩ :=
    mbHeapGc_preserves_graph knot_wellFormed
  rw [hrun] at hhp
  exact ⟨roots', heap', f, objs, hrun, hbij, hsum, Except.ok.inj hhp⟩

end MiniBeam
