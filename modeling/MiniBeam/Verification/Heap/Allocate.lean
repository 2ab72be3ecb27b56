import MiniBeam.Verification.Heap.Preserve

/-! Sound heaps grow: reading a field or making an object from words the roots see keeps
the heap sound. -/

namespace MiniBeam

open Layout (slice)
open RootedGraph

section Sound

variable {space space' : List Term} {hp hp' lo : ℕ} {roots roots' : List Term}

/-- A legal word that refers to nothing but live objects. -/
structure Seen (space : List Term) (hp lo : ℕ) (roots : List Term) (t : Term) : Prop where
  ok : WordOk space hp lo t
  isLive : ∀ o, target t = some o → Live space roots o

theorem Sound.seen_root (h : Sound space hp lo roots) {t : Term} (ht : t ∈ roots) :
    Seen space hp lo roots t :=
  ⟨h.rootsOk t ht, fun _ ho => .root (mem_map_value.mpr ⟨t, ht, ho⟩)⟩

theorem Sound.seen_field (h : Sound space hp lo roots) {o : Obj} (ho : Live space roots o)
    {t : Term} (ht : t ∈ o.fields space) : Seen space hp lo roots t :=
  ⟨h.fieldsOk o ho t ht, fun _ ha => .field ho (mem_map_value.mpr ⟨t, ht, ha⟩)⟩

theorem Seen.data {t : Term} (h : t = 0 ∨ isImmediate t = true) : Seen space hp lo roots t := by
  refine ⟨?_, fun o ho => ?_⟩
  · rcases h with h | h
    · exact .zero h
    · exact .immediate h
  · rw [target_of_immediate h] at ho
    cases ho

/-- Roots chosen from the words seen before see nothing else. -/
theorem Sound.reroot (h : Sound space hp lo roots) (hr : ∀ t ∈ roots', Seen space hp lo roots t) :
    Sound space hp lo roots' := by
  have hlive : ∀ o, Live space roots' o → Live space roots o := fun o ho =>
    ho.of_roots fun v hv => by
      obtain ⟨t, ht, htarget⟩ := mem_map_value.mp hv
      exact (hr t ht).isLive v htarget
  exact ⟨fun t ht => (hr t ht).ok, fun o ho => h.fieldsOk o (hlive o ho),
    fun o o' ho ho' => h.apart o o' (hlive o ho) (hlive o' ho')⟩

theorem Sound.mono {lo' : ℕ} (h : Sound space hp lo roots) (hlo : lo' ≤ lo) :
    Sound space hp lo' roots := by
  have hword : ∀ {t}, WordOk space hp lo t → WordOk space hp lo' t := by
    intro t ht
    cases ht with
    | zero h => exact .zero h
    | immediate h => exact .immediate h
    | cons h below => exact .cons h below
    | boxed hdr h header isHdr least most below =>
        exact .boxed hdr h header isHdr (hlo.trans least) most below
  exact ⟨fun t ht => hword (h.rootsOk t ht), fun o ho t ht => hword (h.fieldsOk o ho t ht), h.apart⟩

section Agree

variable (hagree : ∀ k, k < hp → space'[k]? = space[k]?)
include hagree

theorem Obj.Fits.size_congr {o : Obj} (ho : o.Fits space hp lo) : o.size space' = o.size space := by
  cases o with
  | cell off => rfl
  | tuple off =>
      obtain ⟨hdr, header, -⟩ := ho.header off rfl
      have hbelow := ho.below
      simp only [Obj.off, Obj.size] at hbelow
      have header' : space'[off]? = some hdr := by rw [hagree off (by omega), header]
      simp only [Obj.size, Obj.arity_eq header, Obj.arity_eq header']

theorem Obj.Fits.label_congr {o : Obj} (ho : o.Fits space hp lo) :
    o.label space' = o.label space := by
  have hsize := ho.size_congr hagree
  cases o with
  | cell off => rfl
  | tuple off =>
      simp only [Obj.size] at hsize
      simp only [Obj.label, Option.some.injEq]
      omega

theorem Obj.Fits.fields_congr {o : Obj} (ho : o.Fits space hp lo) :
    o.fields space' = o.fields space := by
  have hsize := ho.size_congr hagree
  have hbelow := ho.below
  cases o with
  | cell off =>
      simp only [Obj.off, Obj.size] at hbelow
      exact Layout.slice_congr fun k hk => hagree _ (by omega)
  | tuple off =>
      simp only [Obj.off, Obj.size] at hbelow hsize
      have harity : Obj.arity space' off = Obj.arity space off := by omega
      simp only [Obj.fields, harity]
      exact Layout.slice_congr fun k hk => hagree _ (by omega)

theorem Obj.Fits.extend {o : Obj} (ho : o.Fits space hp lo) (hhp : hp ≤ hp') :
    o.Fits space' hp' lo := by
  have hbelow := ho.below
  refine ⟨by rw [ho.size_congr hagree]; omega, fun off hoff => ?_⟩
  obtain ⟨hdr, header, hrest⟩ := ho.header off hoff
  subst hoff
  simp only [Obj.off, Obj.size] at hbelow
  exact ⟨hdr, by rw [hagree off (by omega), header], hrest⟩

theorem WordOk.extend {t : Term} (ht : WordOk space hp lo t) (hhp : hp ≤ hp') :
    WordOk space' hp' lo t :=
  .of_target ht.data fun _ ho => (ht.fits ho).extend hagree hhp

/-- The objects live after a new object was made: the new one, and those live before. -/
theorem Sound.live_extend (h : Sound space hp lo roots) {new : Obj}
    (hfields : ∀ t ∈ new.fields space', Seen space hp lo roots t)
    (hroots : ∀ t ∈ roots', Seen space hp lo roots t ∨ target t = some new) {o : Obj}
    (ho : Live space' roots' o) : o = new ∨ Live space roots o := by
  induction ho with
  | root hr =>
      obtain ⟨t, ht, htarget⟩ := mem_map_value.mp hr
      rcases hroots t ht with hs | hn
      · exact .inr (hs.isLive _ htarget)
      · rw [hn, Option.some.injEq] at htarget
        exact .inl htarget.symm
  | field _ hf ih =>
      obtain ⟨t, ht, htarget⟩ := mem_map_value.mp hf
      rcases ih with rfl | hlive
      · exact .inr ((hfields t ht).isLive _ htarget)
      · rw [(h.fits hlive).fields_congr hagree] at ht
        exact .inr ((h.seen_field hlive ht).isLive _ htarget)

/-- A new object above the others, made from words seen before, keeps the heap sound. -/
theorem Sound.extend (h : Sound space hp lo roots) (hhp : hp ≤ hp') {new : Obj}
    (hoff : hp ≤ new.off) (hfits : new.Fits space' hp' lo)
    (hfields : ∀ t ∈ new.fields space', Seen space hp lo roots t)
    (hroots : ∀ t ∈ roots', Seen space hp lo roots t ∨ target t = some new) :
    Sound space' hp' lo roots' := by
  have hlive := fun o (ho : Live space' roots' o) => h.live_extend hagree hfields hroots ho
  have hnew : ∀ {t}, target t = some new → WordOk space' hp' lo t := fun ht =>
    .of_target (fun hn => by rw [hn] at ht; cases ht) fun o ho => by
      rw [ht, Option.some.injEq] at ho
      exact ho ▸ hfits
  refine ⟨fun t ht => ?_, fun o ho t ht => ?_, fun o o' ho ho' hne => ?_⟩
  · rcases hroots t ht with hs | hn
    · exact hs.ok.extend hagree hhp
    · exact hnew hn
  · rcases hlive o ho with rfl | hl
    · exact (hfields t ht).ok.extend hagree hhp
    · rw [(h.fits hl).fields_congr hagree] at ht
      exact (h.fieldsOk o hl t ht).extend hagree hhp
  · have hbelow : ∀ a, Live space roots a → a.off + a.size space' ≤ hp := fun a ha => by
      rw [(h.fits ha).size_congr hagree]
      exact (h.fits ha).below
    rcases hlive o ho with rfl | hl <;> rcases hlive o' ho' with rfl | hl'
    · exact absurd rfl hne
    · exact .inr ((hbelow o' hl').trans hoff)
    · exact .inl ((hbelow o hl).trans hoff)
    · have hsep := h.apart o o' hl hl' hne
      unfold Apart at hsep ⊢
      rwa [(h.fits hl).size_congr hagree, (h.fits hl').size_congr hagree]

end Agree

end Sound

/-! ### The two allocations -/

theorem mbHeapCons_full {heap : Heap} (h : heap.capacity < heap.hp + 2) (head tail : Term) :
    mbHeapCons heap head tail = .ok (0, heap) := by
  simp [mbHeapCons, mbHeapAlloc, h]

theorem mbHeapMakeTuple_full {heap : Heap} {elems : List Term}
    (h : heap.capacity < heap.hp + (1 + elems.length)) :
    mbHeapMakeTuple heap elems elems.length = .ok (0, heap) := by
  simp [mbHeapMakeTuple, mbHeapAlloc, h]

theorem mbHeapCons_room {heap : Heap} (hlen : heap.fromSpace.length = heap.capacity)
    (h : heap.hp + 2 ≤ heap.capacity) (head tail : Term) :
    ∃ space, mbHeapCons heap head tail =
        .ok (makeCons heap.hp, { heap with fromSpace := space, hp := heap.hp + 2 }) ∧
      space.length = heap.fromSpace.length ∧
      (∀ k, k < heap.hp → space[k]? = heap.fromSpace[k]?) ∧
      slice space heap.hp 2 = [head, tail] := by
  refine ⟨(heap.fromSpace.set heap.hp head).set (heap.hp + 1) tail, ?_, by simp, fun k hk => ?_, ?_⟩
  · simp only [mbHeapCons, mbHeapAlloc, gt_iff_lt, Nat.not_lt.mpr h, if_false]
    rw [writeWord_eq (by omega), ok_bind, writeWord_eq (by rw [List.length_set]; omega)]
    rfl
  · rw [List.getElem?_set_ne (by omega), List.getElem?_set_ne (by omega)]
  · have h0 : ((heap.fromSpace.set heap.hp head).set (heap.hp + 1) tail)[heap.hp]? = some head := by
      rw [List.getElem?_set_ne (by omega), List.getElem?_set_self (by omega)]
    have h1 : ((heap.fromSpace.set heap.hp head).set (heap.hp + 1) tail)[heap.hp + 1]? =
        some tail := List.getElem?_set_self (by rw [List.length_set]; omega)
    rw [Layout.slice_succ h0, Layout.slice_succ h1]
    simp [slice]

theorem storeElems_eq (space : List Term) (off i n : ℕ) (elems : List Term)
    (hn : i + n = elems.length) (hroom : off + 1 + elems.length ≤ space.length) :
    ∃ space', storeElems space off elems i n = .ok space' ∧ space'.length = space.length ∧
      (∀ k, k < off + 1 + i → space'[k]? = space[k]?) ∧
      slice space' (off + 1 + i) n = elems.drop i := by
  induction n generalizing space i with
  | zero =>
      refine ⟨space, rfl, rfl, fun _ _ => rfl, ?_⟩
      rw [List.drop_eq_nil_of_le (by omega)]
      simp [slice]
  | succ n ih =>
      have hi : i < elems.length := by omega
      obtain ⟨space', hrun, hlen, hkeep, hslice⟩ := ih (space.set (off + 1 + i) elems[i]) (i + 1)
        (by omega) (by rw [List.length_set]; exact hroom)
      refine ⟨space', ?_, by rw [hlen, List.length_set], fun k hk => ?_, ?_⟩
      · simp only [storeElems, List.getElem?_eq_getElem hi]
        rw [writeWord_eq (by omega), ok_bind, hrun]
      · rw [hkeep k (by omega), List.getElem?_set_ne (by omega)]
      · have hfirst : space'[off + 1 + i]? = some elems[i] := by
          rw [hkeep _ (by omega), List.getElem?_set_self (by omega)]
        rw [Layout.slice_succ hfirst, Nat.add_assoc (off + 1), hslice,
          ← List.drop_eq_getElem_cons hi]

theorem mbHeapMakeTuple_room {heap : Heap} {elems : List Term}
    (hlen : heap.fromSpace.length = heap.capacity)
    (h : heap.hp + (1 + elems.length) ≤ heap.capacity) :
    ∃ space, mbHeapMakeTuple heap elems elems.length = .ok (makeBoxed heap.hp,
        { heap with fromSpace := space, hp := heap.hp + (1 + elems.length) }) ∧
      space.length = heap.fromSpace.length ∧
      (∀ k, k < heap.hp → space[k]? = heap.fromSpace[k]?) ∧
      space[heap.hp]? = some (makeTupleHdr elems.length) ∧
      slice space (heap.hp + 1) elems.length = elems := by
  obtain ⟨space, hrun, hlen', hkeep, hslice⟩ := storeElems_eq
    (heap.fromSpace.set heap.hp (makeTupleHdr elems.length)) heap.hp 0 elems.length elems (by omega)
    (by rw [List.length_set]; omega)
  refine ⟨space, ?_, by rw [hlen', List.length_set], fun k hk => ?_, ?_, ?_⟩
  · simp only [mbHeapMakeTuple, mbHeapAlloc, gt_iff_lt, Nat.not_lt.mpr h, if_false]
    rw [writeWord_eq (by omega), ok_bind, hrun]
    rfl
  · rw [hkeep k (by omega), List.getElem?_set_ne (by omega)]
  · rw [hkeep _ (by omega), List.getElem?_set_self (by omega)]
  · simpa using hslice

end MiniBeam
