import MiniBeam.Verification.Heap.Calls

/-! Cheney's collector. The objects copied so far stand in the new space in the order of
their copying; those before `scan` have their references relocated, the others are still
the words of the old space, and each copied object has a forwarding record there. -/

namespace MiniBeam

open Layout (slice addr)
open RootedGraph

/-! ### Copying words -/

theorem readWord_eq {space : List Term} {i : ℕ} {w : Term} (h : space[i]? = some w) :
    readWord space i = .ok w := by
  simp [readWord, h]

theorem writeWord_eq {space : List Term} {i : ℕ} (h : i < space.length) (w : Term) :
    writeWord space i w = .ok (space.set i w) := by
  simp [writeWord, h]

theorem copyWords_eq {dst src : List Term} {d s n : ℕ} (hd : d + n ≤ dst.length)
    (hs : s + n ≤ src.length) :
    ∃ dst', copyWords dst d src s n = .ok dst' ∧ dst'.length = dst.length ∧
      dst'.take (d + n) = dst.take d ++ slice src s n := by
  induction n with
  | zero => exact ⟨dst, rfl, rfl, by simp [slice]⟩
  | succ n ih =>
      obtain ⟨mid, hmid, hlen, htake⟩ := ih (by omega) (by omega)
      have hsrc : s + n < src.length := by omega
      refine ⟨mid.set (d + n) src[s + n], ?_, by simp [hlen], ?_⟩
      · simp only [copyWords, hmid, ok_bind, readWord_eq (List.getElem?_eq_getElem hsrc)]
        exact writeWord_eq (by omega) _
      · have hlast : slice src s (n + 1) = slice src s n ++ [src[s + n]] := by
          have hn : n < (src.drop s).length := by
            rw [List.length_drop]
            omega
          rw [slice, List.take_succ_eq_append_getElem hn, List.getElem_drop, slice]
        have hset : d + n < (mid.set (d + n) src[s + n]).length := by
          rw [List.length_set]
          omega
        rw [← Nat.add_assoc, List.take_succ_eq_append_getElem hset, List.getElem_set_self,
          List.take_set_of_le (Nat.le_refl _), htake, hlast, List.append_assoc]

/-- A move copies the words to the end of the new space, and leaves its record in the old one. -/
theorem moveObject_eq {heap : Heap} {off size : ℕ}
    (hcopy : heap.hp + size ≤ heap.fromSpace.length) (hfit : off + size ≤ heap.toSpace.length)
    (hrecord : off + 2 ≤ heap.toSpace.length) :
    ∃ new, moveObject heap off size = .ok (heap.hp, { heap with
        fromSpace := new
        toSpace := (heap.toSpace.set off movedMarker).set (off + 1) (BitVec.ofNat 32 heap.hp)
        hp := heap.hp + size }) ∧
      new.length = heap.fromSpace.length ∧
      new.take (heap.hp + size) = heap.fromSpace.take heap.hp ++ slice heap.toSpace off size := by
  obtain ⟨new, hcopied, hlength, htake⟩ := copyWords_eq (d := heap.hp) hcopy hfit
  refine ⟨new, ?_, hlength, htake⟩
  simp only [moveObject, hcopied, ok_bind]
  rw [writeWord_eq (by omega), ok_bind, writeWord_eq (by rw [List.length_set]; omega)]
  rfl

/-! ### The objects of one collection -/

/-- A word that refers to a live object, or data. -/
structure Legal (live : Obj → Prop) (t : Term) : Prop where
  data : target t = none → t = 0 ∨ isImmediate t = true
  target_live : ∀ o, target t = some o → live o

/-- The two words of a forwarding record lie in the space and in no other live object. An
object of one word is smaller than its record. -/
structure RecordFits (cap : ℕ) (live : Obj → Prop) (o : Obj) : Prop where
  inside : o.off + 2 ≤ cap
  free : ∀ o', live o' → o'.off ≠ o.off + 1

/-- The old space of a collection and the objects live in it; the records of those that
`may` be moved fit. -/
structure Old (old : List Term) (hp₀ cap lo : ℕ) (live may : Obj → Prop) : Prop where
  length : old.length = cap
  cap_le : cap ≤ heapWords
  hp_le : hp₀ ≤ cap
  fits : ∀ o, live o → o.Fits old hp₀ lo
  fields : ∀ o, live o → ∀ t ∈ o.fields old, Legal live t
  apart : ∀ o o', live o → live o' → o ≠ o' → Apart old o o'
  record : ∀ o, live o → may o → RecordFits cap live o

theorem Legal.of_wordOk {space : List Term} {hp lo : ℕ} {live : Obj → Prop} {t : Term}
    (h : WordOk space hp lo t) (hlive : ∀ o, target t = some o → live o) : Legal live t :=
  ⟨h.data, hlive⟩

/-- The forwarding records of a heap fit: only an empty tuple can be in the way. -/
def Heap.RecordsFit (heap : Heap) (roots : List Term) : Prop :=
  ∀ o, Live heap.fromSpace roots o →
    RecordFits heap.capacity (Live heap.fromSpace roots) o

theorem Heap.WellFormed.old {heap : Heap} {lo : ℕ} {roots : List Term}
    (h : heap.WellFormed lo roots) (may : Obj → Prop)
    (hrec : ∀ o, Live heap.fromSpace roots o → may o →
      RecordFits heap.capacity (Live heap.fromSpace roots) o) :
    Old heap.fromSpace heap.hp heap.capacity lo (Live heap.fromSpace roots) may where
  length := h.fromLength
  cap_le := h.capacity_le
  hp_le := h.hp_le
  fits _ ho := h.sound.fits ho
  fields o ho t ht := .of_wordOk (h.sound.fieldsOk o ho t ht) fun _ htarget =>
    .field ho (mem_map_value.mpr ⟨t, ht, htarget⟩)
  apart := h.sound.apart
  record := hrec

section Objects

variable {old : List Term} {hp₀ cap lo : ℕ} {live may : Obj → Prop}
  (hold : Old old hp₀ cap lo live may)
include hold

theorem Old.off_add_size_le {o : Obj} (ho : live o) : o.off + o.size old ≤ old.length := by
  have := (hold.fits o ho).below
  have := hold.hp_le
  rw [hold.length]
  omega

theorem Old.length_words {o : Obj} (ho : live o) : (o.words old).length = o.size old :=
  Layout.length_slice (hold.off_add_size_le ho)

/-- The record of one object does not overwrite the words of another. -/
theorem Old.record_apart {a o : Obj} (ha : live a) (ho : live o) (hmay : may o) (hne : a ≠ o) :
    o.off + 1 < a.off ∨ a.off + a.size old ≤ o.off := by
  have hsep := hold.apart a o ha ho hne
  have hfree := (hold.record o ho hmay).free a ha
  have := o.size_pos old
  unfold Apart at hsep
  omega

/-- Two records do not overlap. -/
theorem Old.records_apart {a o : Obj} (ha : live a) (ho : live o) (hmaya : may a) (hmayo : may o)
    (hne : a ≠ o) : o.off + 1 < a.off ∨ a.off + 1 < o.off := by
  have h := hold.record_apart ha ho hmayo hne
  have h' := hold.record_apart ho ha hmaya (Ne.symm hne)
  have := a.size_pos old
  have := o.size_pos old
  omega

/-- A tuple is its header and its elements; a cell is its two words. -/
theorem Old.words_tuple {off : ℕ} (ho : live (.tuple off)) :
    ∃ hdr, old[off]? = some hdr ∧ isTupleHdr hdr = true ∧
      getTupleArity hdr = (Obj.fields old (.tuple off)).length ∧
      Obj.words old (.tuple off) = hdr :: Obj.fields old (.tuple off) := by
  obtain ⟨hdr, hhdr, hishdr, -, -⟩ := (hold.fits _ ho).header off rfl
  have hle := hold.off_add_size_le ho
  simp only [Obj.off, Obj.size] at hle
  refine ⟨hdr, hhdr, hishdr, ?_, ?_⟩
  · rw [Obj.fields, Layout.length_slice (by omega), Obj.arity_eq hhdr]
  · exact Obj.words_tuple hhdr

/-- The copied objects need no more room than was filled before. -/
theorem Old.room {objs : List Obj} (hnodup : objs.Nodup) (hlive : ∀ o ∈ objs, live o) :
    (objs.flatMap (Obj.words old)).length ≤ hp₀ := by
  have hsum : (objs.flatMap (Obj.words old)).length = (objs.map (Obj.size old)).sum := by
    rw [List.length_flatMap]
    congr 1
    exact List.map_congr_left fun o ho => hold.length_words (hlive o ho)
  rw [hsum]
  refine Layout.sum_le_of_disjoint hnodup (fun o ho => (hold.fits o (hlive o ho)).below) ?_
  exact fun o ho o' ho' hne => hold.apart o o' (hlive o ho) (hlive o' ho') hne

end Objects

/-! ### The invariant -/

/-- The state of a collection after the objects `objs` were copied, with the words before
`scan` relocated. -/
structure Copied (old : List Term) (cap : ℕ) (live may : Obj → Prop) (heap : Heap)
    (objs : List Obj) (scan : ℕ) : Prop where
  newLength : heap.fromSpace.length = cap
  oldLength : heap.toSpace.length = cap
  nodup : objs.Nodup
  isLive : ∀ o ∈ objs, live o
  mayMove : ∀ o ∈ objs, may o
  hp_eq : heap.hp = (objs.flatMap (Obj.words old)).length
  scan_le : scan ≤ heap.hp
  image : heap.fromSpace.take heap.hp =
    ((objs.flatMap (Obj.words old)).take scan).map (relocate (addr (Obj.words old) objs)) ++
      (objs.flatMap (Obj.words old)).drop scan
  closed : ∀ t ∈ (objs.flatMap (Obj.words old)).take scan, ∀ o, target t = some o → o ∈ objs
  forward : ∀ o ∈ objs, heap.toSpace[o.off]? = some movedMarker ∧
    heap.toSpace[o.off + 1]? = some (BitVec.ofNat 32 (addr (Obj.words old) objs o))
  intact : ∀ o, live o → o ∉ objs → slice heap.toSpace o.off (o.size old) = o.words old

/-- The calls move only objects that may be moved. -/
def Admits (old : List Term) (cap : ℕ) (live may : Obj → Prop) (calls : List GcCall) : Prop :=
  ∀ c ∈ calls, ∀ objs scan, Copied old cap live may c.1 objs scan → Legal live c.2 →
    ∀ o, target c.2 = some o → o ∉ objs → may o

/-- Each call finds the invariant, and its term is next in the walk that finds `all`. -/
def Visited (old : List Term) (cap : ℕ) (live may : Obj → Prop) (all : List Obj)
    (calls : List GcCall) : Prop :=
  ∀ c ∈ calls, ∃ objs scan queue, Copied old cap live may c.1 objs scan ∧ Legal live c.2 ∧
    Finds old objs (c.2 :: queue) all

section Calls

variable {old : List Term} {cap : ℕ} {live may : Obj → Prop} {all : List Obj}
  {calls calls' : List GcCall}

theorem Admits.left (h : Admits old cap live may (calls ++ calls')) :
    Admits old cap live may calls :=
  fun c hc => h c (List.mem_append_left _ hc)

theorem Admits.right (h : Admits old cap live may (calls ++ calls')) :
    Admits old cap live may calls' :=
  fun c hc => h c (List.mem_append_right _ hc)

theorem Visited.append (h : Visited old cap live may all calls)
    (h' : Visited old cap live may all calls') : Visited old cap live may all (calls ++ calls') :=
  fun c hc => (List.mem_append.mp hc).elim (h c) (h' c)

theorem Visited.nil : Visited old cap live may all [] := fun _ hc => by cases hc

end Calls

section Invariant

variable {old : List Term} {hp₀ cap lo : ℕ} {live may : Obj → Prop}
  (hold : Old old hp₀ cap lo live may)
  {heap : Heap} {objs : List Obj} {scan : ℕ}
include hold

theorem Old.addr_lt {o : Obj} (hnodup : objs.Nodup) (hlive : ∀ o ∈ objs, live o) (ho : o ∈ objs) :
    addr (Obj.words old) objs o + o.size old ≤ hp₀ := by
  have := Layout.addr_add_length_le (Obj.words old) ho
  rw [hold.length_words (hlive o ho)] at this
  exact this.trans (hold.room hnodup hlive)

/-- Moving an object that was not copied yet. -/
theorem Copied.moveObject (h : Copied old cap live may heap objs scan) {o : Obj} (ho : live o)
    (hmay : may o) (hnew : o ∉ objs) :
    ∃ heap', moveObject heap o.off (o.size old) = .ok (heap.hp, heap') ∧
      heap'.capacity = heap.capacity ∧ heap'.gcCount = heap.gcCount ∧
      addr (Obj.words old) (objs ++ [o]) o = heap.hp ∧
      Copied old cap live may heap' (objs ++ [o]) scan := by
  have hwlen := hold.length_words ho
  have hrecord := (hold.record o ho hmay).inside
  rw [← h.oldLength] at hrecord
  have hfit : o.off + o.size old ≤ heap.toSpace.length := by
    rw [h.oldLength, ← hold.length]
    exact hold.off_add_size_le ho
  have hnodup : (objs ++ [o]).Nodup := by
    rw [← List.concat_eq_append]
    exact h.nodup.concat hnew
  have hlive : ∀ a ∈ objs ++ [o], live a :=
    List.forall_mem_append.mpr ⟨h.isLive, List.forall_mem_singleton.mpr ho⟩
  have hmoves : ∀ a ∈ objs ++ [o], may a :=
    List.forall_mem_append.mpr ⟨h.mayMove, List.forall_mem_singleton.mpr hmay⟩
  have hflat : (objs ++ [o]).flatMap (Obj.words old) =
      objs.flatMap (Obj.words old) ++ o.words old := by simp
  have haddr : addr (Obj.words old) (objs ++ [o]) o = heap.hp := by
    rw [Layout.addr_append_new hnew, h.hp_eq]
  have hroom := hold.room hnodup hlive
  rw [hflat, List.length_append, ← h.hp_eq, hwlen] at hroom
  have hcap := hold.hp_le
  have hcopy : heap.hp + o.size old ≤ heap.fromSpace.length := by
    rw [h.newLength]
    omega
  obtain ⟨new, hmove, hnewlen, htake⟩ := moveObject_eq hcopy hfit hrecord
  refine ⟨_, hmove, rfl, rfl, haddr, ?_⟩
  have hscan : scan ≤ (objs.flatMap (Obj.words old)).length := h.hp_eq ▸ h.scan_le
  have haddr_old : ∀ a ∈ objs, addr (Obj.words old) (objs ++ [o]) a = addr (Obj.words old) objs a :=
    fun a ha => Layout.addr_append_of_mem ha [o]
  have htakeF : ((objs ++ [o]).flatMap (Obj.words old)).take scan =
      (objs.flatMap (Obj.words old)).take scan := by
    rw [hflat, List.take_append_of_le_length hscan]
  constructor
  case newLength => exact hnewlen.trans h.newLength
  case oldLength => simpa using h.oldLength
  case nodup => exact hnodup
  case isLive => exact hlive
  case mayMove => exact hmoves
  case hp_eq => rw [hflat, List.length_append, ← h.hp_eq, hwlen]
  case scan_le =>
    have := h.scan_le
    show scan ≤ heap.hp + o.size old
    omega
  case image =>
    have hmap : ((objs.flatMap (Obj.words old)).take scan).map
        (relocate (addr (Obj.words old) (objs ++ [o]))) =
        ((objs.flatMap (Obj.words old)).take scan).map (relocate (addr (Obj.words old) objs)) :=
      List.map_congr_left fun t ht => relocate_congr fun a ha => haddr_old a (h.closed t ht a ha)
    show new.take (heap.hp + o.size old) = _
    rw [htake, htakeF, hmap, hflat, List.drop_append_of_le_length hscan, h.image,
      h.intact o ho hnew, List.append_assoc]
  case closed =>
    intro t ht a ha
    rw [htakeF] at ht
    exact List.mem_append_left _ (h.closed t ht a ha)
  case forward =>
    intro a ha
    dsimp only
    rcases List.mem_append.mp ha with ha | ha
    · -- the record of an object copied before is not overwritten
      have hne : a ≠ o := fun he => hnew (he ▸ ha)
      have hsep := hold.records_apart (h.isLive a ha) ho (h.mayMove a ha) hmay hne
      rw [haddr_old a ha]
      obtain ⟨h1, h2⟩ := h.forward a ha
      constructor
      · rw [List.getElem?_set_ne (by omega), List.getElem?_set_ne (by omega), h1]
      · rw [List.getElem?_set_ne (by omega), List.getElem?_set_ne (by omega), h2]
    · rw [List.mem_singleton.mp ha, haddr]
      constructor
      · rw [List.getElem?_set_ne (by omega), List.getElem?_set_self (by omega)]
      · rw [List.getElem?_set_self (by rw [List.length_set]; omega)]
  case intact =>
    intro a ha hna
    obtain ⟨hna, hne⟩ : a ∉ objs ∧ a ≠ o := by simpa using hna
    have hsep := hold.record_apart ha ho hmay hne
    dsimp only
    rw [Layout.slice_set _ (by omega), Layout.slice_set _ (by omega), h.intact a ha hna]

end Invariant

/-! ### One word -/

theorem isMoved_iff {w : Term} : isMoved w = true ↔ w = movedMarker := beq_iff_eq

theorem isMoved_hdr {w : Term} (h : isTupleHdr w = true) : isMoved w = false := by
  rw [← Bool.not_eq_true, isMoved_iff]
  rintro rfl
  revert h
  decide

section Word

variable {old : List Term} {hp₀ cap lo : ℕ} {live may : Obj → Prop}
  (hold : Old old hp₀ cap lo live may)
  {heap : Heap} {objs : List Obj} {scan : ℕ}
include hold

/-- No legal word looks like a forwarding record: it would refer far beyond the space. -/
theorem Old.isMoved_legal {t : Term} (ht : Legal live t) : isMoved t = false := by
  rw [← Bool.not_eq_true, isMoved_iff]
  rintro rfl
  have htarget : target movedMarker = some (.tuple 0xDEAD000) := by decide
  have hbelow := (hold.fits _ (ht.target_live _ htarget)).below
  have hcap := hold.cap_le
  have hhp := hold.hp_le
  simp only [Obj.off, heapWords] at hbelow hcap
  omega

/-- A reference to an object copied before becomes a reference to its copy. -/
theorem Copied.copyTerm_old (h : Copied old cap live may heap objs scan) {t : Term} {o : Obj}
    (ht : target t = some o) (ho : o ∈ objs) :
    mbGcCopyTerm heap t = .ok (relocate (addr (Obj.words old) objs) t, heap) := by
  have hlt := hold.addr_lt h.nodup h.isLive ho
  have hcap := hold.cap_le
  have hhp := hold.hp_le
  simp only [heapWords] at hcap
  have hnat : (BitVec.ofNat 32 (addr (Obj.words old) objs o)).toNat =
      addr (Obj.words old) objs o := by
    rw [BitVec.toNat_ofNat, Nat.mod_eq_of_lt (by omega)]
  obtain ⟨hmark, hword⟩ := h.forward o ho
  rw [relocate_some ht, mbGcCopyTerm, not_immediate_of_target ht]
  cases o with
  | cell off =>
      obtain ⟨hb, hc, rfl⟩ := target_cell ht
      simp only [Obj.off] at hmark hword
      simp only [hb, hc, readWord_eq hmark, readWord_eq hword, ok_bind, isMoved_iff, if_true, hnat]
      rfl
  | tuple off =>
      obtain ⟨hb, rfl⟩ := target_tuple ht
      simp only [Obj.off] at hmark hword
      simp only [hb, readWord_eq hmark, readWord_eq hword, ok_bind, isMoved_iff, if_true, hnat]
      rfl

omit hold in
/-- The first word of an object that was not copied yet. -/
theorem Copied.first_word (h : Copied old cap live may heap objs scan) {o : Obj} (ho : live o)
    (hnew : o ∉ objs) : heap.toSpace[o.off]? = old[o.off]? := by
  have hsize := o.size_pos old
  have hslice := h.intact o ho hnew
  rw [← Nat.add_zero o.off, ← Layout.getElem?_slice (n := o.size old) (by omega), hslice,
    Obj.words, Layout.getElem?_slice (by omega)]

/-- A call for an object not copied yet moves the object with all its words. -/
theorem Copied.movedObject_new (h : Copied old cap live may heap objs scan) {t : Term} {o : Obj}
    (ht : target t = some o) (ho : live o) (hnew : o ∉ objs) :
    movedObject (heap, t) = some (o, o.size old) := by
  have hfirst := h.first_word ho hnew
  rw [movedObject, not_immediate_of_target ht]
  cases o with
  | cell off =>
      obtain ⟨hb, hc, rfl⟩ := target_cell ht
      have hle := hold.off_add_size_le ho
      simp only [Obj.off, Obj.size] at hle hfirst
      have hhead : old[getCons t]? = some old[getCons t] := List.getElem?_eq_getElem (by omega)
      have hlegal : Legal live old[getCons t] :=
        hold.fields _ ho _ (List.mem_iff_getElem?.mpr ⟨0, by
          rw [Obj.fields, Layout.getElem?_slice (by omega), Nat.add_zero, hhead]⟩)
      rw [hhead] at hfirst
      simp [hb, hc, readWord_eq hfirst, hold.isMoved_legal hlegal, Obj.size]
  | tuple off =>
      obtain ⟨hb, rfl⟩ := target_tuple ht
      obtain ⟨hdr, hhdr, hishdr, -, -⟩ := (hold.fits _ ho).header _ rfl
      simp only [Obj.off, hhdr] at hfirst
      simp [hb, readWord_eq hfirst, isMoved_hdr hishdr, hishdr, Obj.size, Obj.arity_eq hhdr]

omit hold in
/-- A call for an object copied before moves nothing. -/
theorem Copied.movedObject_old (h : Copied old cap live may heap objs scan) {t : Term} {o : Obj}
    (ht : target t = some o) (ho : o ∈ objs) : movedObject (heap, t) = none := by
  have hmark := (h.forward o ho).1
  have hmoved : isMoved movedMarker = true := isMoved_iff.mpr rfl
  rw [movedObject, not_immediate_of_target ht]
  cases o with
  | cell off =>
      obtain ⟨hb, hc, rfl⟩ := target_cell ht
      simp only [Obj.off] at hmark
      simp [hb, hc, readWord_eq hmark, hmoved]
  | tuple off =>
      obtain ⟨hb, rfl⟩ := target_tuple ht
      simp only [Obj.off] at hmark
      simp [hb, readWord_eq hmark, hmoved]

/-- A reference to an object not copied yet moves the object. -/
theorem Copied.copyTerm_new (h : Copied old cap live may heap objs scan) {t : Term} {o : Obj}
    (ht : target t = some o) (ho : live o) (hmay : may o) (hnew : o ∉ objs) :
    ∃ heap', mbGcCopyTerm heap t =
        .ok (relocate (addr (Obj.words old) (objs ++ [o])) t, heap') ∧
      heap'.capacity = heap.capacity ∧ heap'.gcCount = heap.gcCount ∧
      Copied old cap live may heap' (objs ++ [o]) scan := by
  obtain ⟨heap', hmove, hcap, hgc, haddr, hcopied⟩ := h.moveObject hold ho hmay hnew
  refine ⟨heap', ?_, hcap, hgc, hcopied⟩
  rw [mbGcCopyTerm_moves (h.movedObject_new hold ht ho hnew), hmove, relocate_some ht, haddr]
  rfl

/-- Copying the object behind a legal word, whatever the word is: the walk goes on behind the
words of the objects that are new. -/
theorem Copied.copyTerm (h : Copied old cap live may heap objs scan) {t : Term} (ht : Legal live t)
    (hmay : ∀ o, target t = some o → o ∉ objs → may o) :
    ∃ heap' more, mbGcCopyTerm heap t =
        .ok (relocate (addr (Obj.words old) (objs ++ more)) t, heap') ∧
      heap'.capacity = heap.capacity ∧ heap'.gcCount = heap.gcCount ∧
      Copied old cap live may heap' (objs ++ more) scan ∧
      (∀ o, target t = some o → o ∈ objs ++ more) ∧
      ∀ queue all, Finds old (objs ++ more) (queue ++ more.flatMap (Obj.words old)) all →
        Finds old objs (t :: queue) all := by
  cases htarget : target t with
  | none =>
      refine ⟨heap, [], ?_, rfl, rfl, by rwa [List.append_nil], by simp, fun queue all hall => ?_⟩
      · have himm : (isImmediate t || t == 0) = true := by
          rcases ht.data htarget with hz | hi
          · simp [hz]
          · simp [hi]
        rw [relocate_none htarget, mbGcCopyTerm, himm, if_pos rfl]
      · simp only [List.flatMap_nil, List.append_nil] at hall
        exact .skip (fun v hv => by rw [htarget] at hv; cases hv) hall
  | some o =>
      by_cases ho : o ∈ objs
      · refine ⟨heap, [], ?_, rfl, rfl, by rwa [List.append_nil], fun a ha => ?_,
          fun queue all hall => ?_⟩
        · rw [List.append_nil]
          exact h.copyTerm_old hold htarget ho
        · rw [List.append_nil, ← Option.some.inj ha]
          exact ho
        · simp only [List.flatMap_nil, List.append_nil] at hall
          refine .skip (fun v hv => ?_) hall
          rw [htarget] at hv
          exact Option.some.inj hv ▸ ho
      · obtain ⟨heap', hcopy, hcap, hgc, hcopied⟩ :=
          h.copyTerm_new hold htarget (ht.target_live o htarget) (hmay o htarget ho) ho
        refine ⟨heap', [o], hcopy, hcap, hgc, hcopied, fun a ha => ?_, fun queue all hall => ?_⟩
        · rw [← Option.some.inj ha]
          exact List.mem_append_right _ (List.mem_singleton_self o)
        · rw [List.flatMap_singleton] at hall
          exact .find htarget ho hall

/-- Copying the roots in order. -/
theorem Copied.copyRoots (h : Copied old cap live may heap objs scan) {roots : List Term}
    (hr : ∀ t ∈ roots, Legal live t) (hadmits : Admits old cap live may (rootCalls heap roots)) :
    ∃ heap' more, MiniBeam.copyRoots heap roots =
        .ok (roots.map (relocate (addr (Obj.words old) (objs ++ more))), heap') ∧
      heap'.capacity = heap.capacity ∧ heap'.gcCount = heap.gcCount ∧
      Copied old cap live may heap' (objs ++ more) scan ∧
      (∀ t ∈ roots, ∀ o, target t = some o → o ∈ objs ++ more) ∧
      ∀ queue all, Finds old (objs ++ more) (queue ++ more.flatMap (Obj.words old)) all →
        Finds old objs (roots ++ queue) all ∧
          Visited old cap live may all (rootCalls heap roots) := by
  induction roots generalizing heap objs with
  | nil =>
      exact ⟨heap, [], rfl, rfl, rfl, by rwa [List.append_nil], by simp,
        fun queue all hall => ⟨by simpa using hall, .nil⟩⟩
  | cons t roots ih =>
      have ht := hr t List.mem_cons_self
      obtain ⟨heap₁, more₁, hcopy, hcap₁, hgc₁, hcopied₁, htarget, hfinds₁⟩ :=
        h.copyTerm hold ht (hadmits (heap, t) List.mem_cons_self objs scan h ht)
      simp only [rootCalls, hcopy] at hadmits ⊢
      obtain ⟨heap₂, more₂, hroots, hcap₂, hgc₂, hcopied₂, htargets, hfinds₂⟩ :=
        ih hcopied₁ (fun u hu => hr u (List.mem_cons_of_mem _ hu))
          fun c hc => hadmits c (List.mem_cons_of_mem _ hc)
      refine ⟨heap₂, more₁ ++ more₂, ?_, hcap₂.trans hcap₁, hgc₂.trans hgc₁, ?_, ?_,
        fun queue all hall => ?_⟩
      · have hsame : relocate (addr (Obj.words old) ((objs ++ more₁) ++ more₂)) t =
            relocate (addr (Obj.words old) (objs ++ more₁)) t :=
          relocate_congr fun o ho => Layout.addr_append_of_mem (htarget o ho) more₂
        simp only [MiniBeam.copyRoots, hcopy, hroots, ok_bind, pure_ok, List.map_cons,
          ← List.append_assoc, hsame]
      · rwa [← List.append_assoc]
      · intro u hu o ho
        rw [← List.append_assoc]
        rcases List.mem_cons.mp hu with rfl | hu
        · exact List.mem_append_left _ (htarget o ho)
        · exact htargets u hu o ho
      · rw [List.flatMap_append, ← List.append_assoc, ← List.append_assoc] at hall
        obtain ⟨hrest, hvisited⟩ := hfinds₂ _ _ hall
        rw [← List.append_assoc] at hrest
        have hqueue := hfinds₁ _ _ hrest
        refine ⟨hqueue, fun c hc => ?_⟩
        rcases List.mem_cons.mp hc with rfl | hc
        · exact ⟨objs, scan, _, h, ht, hqueue⟩
        · exact hvisited c hc

end Word

/-! ### The scan -/

/-- Words that the scan reads as it should: a legal word on its own, or a header and the
elements it announces. A zero word on its own looks like the header of no elements. -/
inductive Stream (live : Obj → Prop) : List Term → Prop
  | nil : Stream live []
  | word {t : Term} {rest : List Term} (legal : Legal live t) (tail : Stream live rest) :
      Stream live (t :: rest)
  | tuple {hdr : Term} {elems rest : List Term} (isHdr : isTupleHdr hdr = true)
      (arity : getTupleArity hdr = elems.length) (legal : ∀ t ∈ elems, Legal live t)
      (tail : Stream live rest) : Stream live (hdr :: (elems ++ rest))

theorem Stream.append {live : Obj → Prop} {l l' : List Term} (h : Stream live l)
    (h' : Stream live l') : Stream live (l ++ l') := by
  induction h with
  | nil => exact h'
  | word legal _ ih => exact .word legal ih
  | tuple isHdr arity legal _ ih =>
      rw [List.cons_append, List.append_assoc]
      exact .tuple isHdr arity legal ih

theorem Stream.of_legal {live : Obj → Prop} {l : List Term} (h : ∀ t ∈ l, Legal live t) :
    Stream live l := by
  induction l with
  | nil => exact .nil
  | cons t l ih =>
      exact .word (h t List.mem_cons_self) (ih fun u hu => h u (List.mem_cons_of_mem _ hu))

/-- A legal word that looks like a header announces no elements. -/
theorem Legal.arity_zero {live : Obj → Prop} {t : Term} (h : Legal live t)
    (hhdr : isTupleHdr t = true) : getTupleArity t = 0 := by
  have hmod := isTupleHdr_iff.mp hhdr
  rcases h.data (target_hdr hhdr) with rfl | himm
  · decide
  · rw [isImmediate_iff] at himm
    omega

section Scan

variable {old : List Term} {hp₀ cap lo : ℕ} {live may : Obj → Prop}
  (hold : Old old hp₀ cap lo live may)
  {heap : Heap} {objs : List Obj} {scan : ℕ}
include hold

theorem Old.stream {more : List Obj} (hlive : ∀ o ∈ more, live o) :
    Stream live (more.flatMap (Obj.words old)) := by
  induction more with
  | nil => exact .nil
  | cons o more ih =>
      have hrest := ih fun a ha => hlive a (List.mem_cons_of_mem _ ha)
      have ho := hlive o List.mem_cons_self
      rw [List.flatMap_cons]
      cases o with
      | cell off => exact (Stream.of_legal (hold.fields _ ho)).append hrest
      | tuple off =>
          obtain ⟨hdr, -, hishdr, harity, hwords⟩ := hold.words_tuple ho
          rw [hwords, List.cons_append]
          exact .tuple hishdr harity (hold.fields _ ho) hrest

omit hold in
/-- A word behind `scan` is still the word of the old space. -/
theorem Copied.word_at (h : Copied old cap live may heap objs scan) {t : Term} {rest : List Term}
    (hdrop : (objs.flatMap (Obj.words old)).drop scan = t :: rest) :
    heap.fromSpace[scan]? = some t ∧ scan < heap.hp := by
  have hscan : scan ≤ (objs.flatMap (Obj.words old)).length := h.hp_eq ▸ h.scan_le
  have hlt : scan < heap.hp := by
    have := congrArg List.length hdrop
    rw [List.length_drop, ← h.hp_eq] at this
    simp only [List.length_cons] at this
    omega
  have hlen : (((objs.flatMap (Obj.words old)).take scan).map
      (relocate (addr (Obj.words old) objs))).length = scan := by
    rw [List.length_map, List.length_take, Nat.min_eq_left hscan]
  refine ⟨?_, hlt⟩
  rw [← List.getElem?_take_of_lt hlt, h.image, hdrop, List.getElem?_append_right hlen.le, hlen,
    Nat.sub_self, List.getElem?_cons_zero]

omit hold in
/-- Moving past a word that relocation leaves as it is. -/
theorem Copied.skip (h : Copied old cap live may heap objs scan) {t : Term} {rest : List Term}
    (hdrop : (objs.flatMap (Obj.words old)).drop scan = t :: rest) (ht : target t = none) :
    Copied old cap live may heap objs (scan + 1) := by
  have hlt := (h.word_at hdrop).2
  have htake : (objs.flatMap (Obj.words old)).take (scan + 1) =
      (objs.flatMap (Obj.words old)).take scan ++ [t] := by
    rw [List.take_add, hdrop]
    rfl
  have hrest : (objs.flatMap (Obj.words old)).drop (scan + 1) = rest := by
    rw [← List.drop_drop, hdrop]
    rfl
  refine { h with scan_le := hlt, image := ?_, closed := ?_ }
  · rw [htake, hrest, h.image, hdrop, List.map_append, List.map_singleton, relocate_none ht,
      List.append_assoc, List.singleton_append]
  · intro u hu o ho
    rw [htake] at hu
    rcases List.mem_append.mp hu with hu | hu
    · exact h.closed u hu o ho
    · rw [List.mem_singleton.mp hu, ht] at ho
      cases ho

/-- Scanning one word copies the object behind it and relocates the word. -/
theorem Copied.scanWord (h : Copied old cap live may heap objs scan) {t : Term} {rest : List Term}
    (hdrop : (objs.flatMap (Obj.words old)).drop scan = t :: rest) (ht : Legal live t)
    (hadmits : Admits old cap live may (wordCalls heap scan)) :
    ∃ heap' more, MiniBeam.scanWord heap scan = .ok heap' ∧
      heap'.capacity = heap.capacity ∧ heap'.gcCount = heap.gcCount ∧
      Copied old cap live may heap' (objs ++ more) (scan + 1) ∧
      ((objs ++ more).flatMap (Obj.words old)).drop (scan + 1) =
        rest ++ more.flatMap (Obj.words old) ∧
      ∀ all, Finds old (objs ++ more) (rest ++ more.flatMap (Obj.words old)) all →
        Finds old objs (t :: rest) all ∧ Visited old cap live may all (wordCalls heap scan) := by
  obtain ⟨hword, hlt⟩ := h.word_at hdrop
  have hcalls : wordCalls heap scan = [(heap, t)] := by rw [wordCalls, readWord_eq hword]
  rw [hcalls] at hadmits ⊢
  obtain ⟨heap₁, more, hcopy, hcap, hgc, hcopied, htarget, hfinds⟩ :=
    h.copyTerm hold ht (hadmits (heap, t) (List.mem_singleton_self _) objs scan h ht)
  have hflat : (objs ++ more).flatMap (Obj.words old) =
      objs.flatMap (Obj.words old) ++ more.flatMap (Obj.words old) := List.flatMap_append
  have hscan : scan < (objs.flatMap (Obj.words old)).length := h.hp_eq ▸ hlt
  have hdrop₁ : ((objs ++ more).flatMap (Obj.words old)).drop scan =
      t :: (rest ++ more.flatMap (Obj.words old)) := by
    rw [hflat, List.drop_append_of_le_length (Nat.le_of_lt hscan), hdrop, List.cons_append]
  have hrest : ((objs ++ more).flatMap (Obj.words old)).drop (scan + 1) =
      rest ++ more.flatMap (Obj.words old) := by
    rw [← List.drop_drop, hdrop₁]
    rfl
  have htake : ((objs ++ more).flatMap (Obj.words old)).take (scan + 1) =
      ((objs ++ more).flatMap (Obj.words old)).take scan ++ [t] := by
    rw [List.take_add, hdrop₁]
    rfl
  obtain ⟨hword₁, hlt₁⟩ := hcopied.word_at hdrop₁
  have hlen : scan < heap₁.fromSpace.length := (List.getElem?_eq_some_iff.mp hword₁).1
  refine ⟨{ heap₁ with
    fromSpace := heap₁.fromSpace.set scan (relocate (addr (Obj.words old) (objs ++ more)) t) },
    more, ?_, hcap, hgc, ?_, hrest, fun all hall => ⟨hfinds rest all hall, fun c hc => ?_⟩⟩
  · simp only [MiniBeam.scanWord, readWord_eq hword, hcopy, ok_bind, writeWord_eq hlen, pure_ok]
  · refine { hcopied with newLength := ?_, scan_le := hlt₁, image := ?_, closed := ?_ }
    · rw [List.length_set]
      exact hcopied.newLength
    · have himage := hcopied.image
      have hmaplen : (((objs ++ more).flatMap (Obj.words old)).take scan).length = scan := by
        rw [List.length_take, ← hcopied.hp_eq]
        omega
      rw [hdrop₁] at himage
      show (heap₁.fromSpace.set scan _).take heap₁.hp = _
      rw [List.take_set, himage, List.set_append_right _ _ (by simp),
        List.length_map, hmaplen, Nat.sub_self, List.set_cons_zero, htake, hrest, List.map_append,
        List.map_singleton, List.append_assoc, List.singleton_append]
    · intro u hu o ho
      rw [htake] at hu
      rcases List.mem_append.mp hu with hu | hu
      · exact hcopied.closed u hu o ho
      · rw [List.mem_singleton.mp hu] at ho
        exact htarget o ho
  · rw [List.mem_singleton.mp hc]
    exact ⟨objs, scan, rest, h, ht, hfinds rest all hall⟩

/-- Scanning the elements of a tuple. -/
theorem Copied.scanElems (h : Copied old cap live may heap objs scan) {elems rest : List Term}
    (hdrop : (objs.flatMap (Obj.words old)).drop scan = elems ++ rest)
    (helems : ∀ t ∈ elems, Legal live t)
    (hadmits : Admits old cap live may (elemCalls heap scan elems.length)) :
    ∃ heap' more, MiniBeam.scanElems heap scan elems.length = .ok (scan + elems.length, heap') ∧
      heap'.capacity = heap.capacity ∧ heap'.gcCount = heap.gcCount ∧
      Copied old cap live may heap' (objs ++ more) (scan + elems.length) ∧
      ((objs ++ more).flatMap (Obj.words old)).drop (scan + elems.length) =
        rest ++ more.flatMap (Obj.words old) ∧
      ∀ all, Finds old (objs ++ more) (rest ++ more.flatMap (Obj.words old)) all →
        Finds old objs (elems ++ rest) all ∧
          Visited old cap live may all (elemCalls heap scan elems.length) := by
  induction elems generalizing heap objs scan rest with
  | nil =>
      exact ⟨heap, [], rfl, rfl, rfl, by rwa [List.append_nil], by simpa using hdrop,
        fun all hall => ⟨by simpa using hall, .nil⟩⟩
  | cons t elems ih =>
      obtain ⟨heap₁, more₁, hword, hcap₁, hgc₁, hcopied₁, hdrop₁, hfinds₁⟩ :=
        h.scanWord hold (List.cons_append ▸ hdrop) (helems t List.mem_cons_self) hadmits.left
      simp only [List.length_cons, elemCalls, hword] at hadmits ⊢
      rw [List.append_assoc] at hdrop₁ hfinds₁
      obtain ⟨heap₂, more₂, hrun, hcap₂, hgc₂, hcopied₂, hdrop₂, hfinds₂⟩ :=
        ih hcopied₁ hdrop₁ (fun u hu => helems u (List.mem_cons_of_mem _ hu)) hadmits.right
      have hsum : scan + 1 + elems.length = scan + (elems.length + 1) := by omega
      rw [hsum] at hrun hcopied₂ hdrop₂
      refine ⟨heap₂, more₁ ++ more₂, ?_, hcap₂.trans hcap₁, hgc₂.trans hgc₁, ?_, ?_,
        fun all hall => ?_⟩
      · simp only [MiniBeam.scanElems, hword, ok_bind]
        exact hrun
      · rwa [← List.append_assoc]
      · rw [← List.append_assoc, hdrop₂, List.flatMap_append, List.append_assoc]
      · rw [List.flatMap_append, ← List.append_assoc, ← List.append_assoc] at hall
        obtain ⟨hrest, hvisited₂⟩ := hfinds₂ all hall
        obtain ⟨hqueue, hvisited₁⟩ := hfinds₁ all hrest
        exact ⟨hqueue, hvisited₁.append hvisited₂⟩

/-- The scan ends with every copied word relocated, and finds objects breadth first. -/
theorem Copied.scanLoop (h : Copied old cap live may heap objs scan) (fuel : ℕ)
    (hstream : Stream live ((objs.flatMap (Obj.words old)).drop scan)) (hpos : 0 < fuel)
    (hfuel : cap < scan + fuel) (hadmits : Admits old cap live may (loopCalls heap scan fuel)) :
    ∃ heap' more, MiniBeam.scanLoop heap scan fuel = .ok heap' ∧
      heap'.capacity = heap.capacity ∧ heap'.gcCount = heap.gcCount ∧
      Copied old cap live may heap' (objs ++ more) heap'.hp ∧
      Finds old objs ((objs.flatMap (Obj.words old)).drop scan) (objs ++ more) ∧
      Visited old cap live may (objs ++ more) (loopCalls heap scan fuel) := by
  induction fuel generalizing heap objs scan with
  | zero => exact absurd hpos (Nat.lt_irrefl 0)
  | succ fuel ih =>
      have hle : heap.hp ≤ cap := by
        have := hold.room h.nodup h.isLive
        have := hold.hp_le
        have := h.hp_eq
        omega
      unfold MiniBeam.scanLoop
      unfold loopCalls at hadmits ⊢
      generalize hdrop : (objs.flatMap (Obj.words old)).drop scan = l at hstream
      cases hstream with
      | nil =>
          have hend : heap.hp ≤ scan := by
            have := congrArg List.length hdrop
            rw [List.length_drop, ← h.hp_eq] at this
            simp only [List.length_nil] at this
            omega
          refine ⟨heap, [], by rw [if_neg (by omega)], rfl, rfl, ?_, ?_, ?_⟩
          · have heq : scan = heap.hp := Nat.le_antisymm h.scan_le hend
            rw [List.append_nil]
            exact heq ▸ h
          · rw [List.append_nil]
            exact .done objs
          · rw [if_neg (by omega)]
            exact .nil
      | @word t rest legal tail =>
          obtain ⟨hword, hlt⟩ := h.word_at hdrop
          simp only [if_pos hlt, readWord_eq hword, ok_bind] at hadmits ⊢
          by_cases hhdr : isTupleHdr t = true
          · -- a zero word on its own: no elements follow
            have hskip := h.skip hdrop (target_hdr hhdr)
            have hrest : (objs.flatMap (Obj.words old)).drop (scan + 1) = rest := by
              rw [← List.drop_drop, hdrop]
              rfl
            simp only [if_pos hhdr, legal.arity_zero hhdr, MiniBeam.scanElems, elemCalls,
              ok_bind] at hadmits ⊢
            obtain ⟨heap₁, more, hloop, hcap, hgc, hcopied, hfinds, hvisited⟩ :=
              ih hskip (hrest ▸ tail) (by omega) (by omega) hadmits.right
            exact ⟨heap₁, more, hloop, hcap, hgc, hcopied,
              .skip (fun v hv => by rw [target_hdr hhdr] at hv; cases hv) (hrest ▸ hfinds),
              Visited.nil.append hvisited⟩
          · simp only [if_neg hhdr] at hadmits ⊢
            obtain ⟨heap₁, more₁, hrun, hcap₁, hgc₁, hcopied₁, hdrop₁, hfinds₁⟩ :=
              h.scanWord hold hdrop legal hadmits.left
            simp only [hrun, ok_bind] at hadmits ⊢
            have hmore : ∀ o ∈ more₁, live o := fun o ho =>
              hcopied₁.isLive o (List.mem_append_right _ ho)
            obtain ⟨heap₂, more₂, hloop, hcap₂, hgc₂, hcopied₂, hfinds₂, hvisited₂⟩ :=
              ih hcopied₁ (hdrop₁ ▸ tail.append (hold.stream hmore)) (by omega) (by omega)
                hadmits.right
            rw [hdrop₁, List.append_assoc] at hfinds₂
            rw [List.append_assoc] at hvisited₂
            obtain ⟨hqueue, hvisited₁⟩ := hfinds₁ _ hfinds₂
            exact ⟨heap₂, more₁ ++ more₂, hloop, hcap₂.trans hcap₁, hgc₂.trans hgc₁,
              by rwa [← List.append_assoc], hqueue, hvisited₁.append hvisited₂⟩
      | @tuple hdr elems rest isHdr arity legal tail =>
          obtain ⟨hword, hlt⟩ := h.word_at hdrop
          have hskip := h.skip hdrop (target_hdr isHdr)
          have hrest : (objs.flatMap (Obj.words old)).drop (scan + 1) = elems ++ rest := by
            rw [← List.drop_drop, hdrop]
            rfl
          simp only [if_pos hlt, readWord_eq hword, ok_bind, if_pos isHdr, arity] at hadmits ⊢
          obtain ⟨heap₁, more₁, hrun, hcap₁, hgc₁, hcopied₁, hdrop₁, hfinds₁⟩ :=
            hskip.scanElems hold hrest legal hadmits.left
          simp only [hrun, ok_bind] at hadmits ⊢
          have hmore : ∀ o ∈ more₁, live o := fun o ho =>
            hcopied₁.isLive o (List.mem_append_right _ ho)
          obtain ⟨heap₂, more₂, hloop, hcap₂, hgc₂, hcopied₂, hfinds₂, hvisited₂⟩ :=
            ih hcopied₁ (hdrop₁ ▸ tail.append (hold.stream hmore)) (by omega) (by omega)
              hadmits.right
          rw [hdrop₁, List.append_assoc] at hfinds₂
          rw [List.append_assoc] at hvisited₂
          obtain ⟨hqueue, hvisited₁⟩ := hfinds₁ _ hfinds₂
          exact ⟨heap₂, more₁ ++ more₂, hloop, hcap₂.trans hcap₁, hgc₂.trans hgc₁,
            by rwa [← List.append_assoc],
            .skip (fun v hv => by rw [target_hdr isHdr] at hv; cases hv) hqueue,
            hvisited₁.append hvisited₂⟩

end Scan

end MiniBeam
