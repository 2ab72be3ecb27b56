import MiniBeam.Verification.Scheduler.Runs
import Mathlib.Data.Fintype.Card

/-! The process table: what holds of its entries in every reached state. -/

namespace MiniBeam

/-- The pid of a table entry. -/
def Slot.pid (i : Slot) : Byte := BitVec.ofNat 8 (i.val + 1)

@[simp] theorem Slot.pid_toNat (i : Slot) : i.pid.toNat = i.val + 1 := by
  have hi : i.val < 8 := i.isLt
  have h : i.val + 1 < 2 ^ 8 := by omega
  simp only [Slot.pid, BitVec.toNat_ofNat, Nat.mod_eq_of_lt h]

theorem Slot.pid_inj {i j : Slot} (h : i.pid = j.pid) : i = j := by
  have := congrArg BitVec.toNat h
  simp only [Slot.pid_toNat] at this
  exact Fin.ext (by omega)

/-- The entries in use. -/
def Scheduler.occupied (s : Scheduler) : Finset Slot :=
  Finset.univ.filter fun i => (s.proc i).state ≠ .free

theorem Scheduler.mem_occupied {s : Scheduler} {i : Slot} :
    i ∈ s.occupied ↔ (s.proc i).state ≠ .free := by
  simp [Scheduler.occupied]

/-- A process waits only for a command it does not have yet, at the instruction that
will take it. -/
structure Process.Blocked (p : Process) : Prop where
  recv : p.AtRecv
  empty : mbMailboxPopRaw p.mailbox = .ok none

/-- The invariant of one entry. -/
structure Entry (i : Slot) (p : Process) : Prop where
  pid : p.state ≠ .free → p.pid = i.pid
  free : p.state = .free → p = Process.zero
  halted : p.halted = true ↔ p.state = .halted
  blocked : p.state = .waiting → p.Blocked

/-- The invariant of the table. -/
structure Table (sys : System) : Prop where
  entry : ∀ i, Entry i (sys.sched.proc i)
  count : sys.sched.count = sys.sched.occupied.card
  current : sys.sched.current < maxProcesses

/-! ### Preservation -/

theorem Entry.zero (i : Slot) : Entry i Process.zero :=
  ⟨fun h => absurd rfl h, fun _ => rfl, by decide, fun h => absurd h (by decide)⟩

theorem Entry.spawned (i : Slot) (program : List Byte) : Entry i (mbProcInit i.pid program) :=
  ⟨fun _ => rfl, fun h => absurd h (by simp [mbProcInit]), by simp [mbProcInit, Process.zero],
    fun h => absurd h (by simp [mbProcInit])⟩

theorem wake_cases (now : BitVec 32) (p : Process) :
    wake now p = p ∨ (p.state = .sleeping ∧ wake now p = { p with state := .ready }) := by
  unfold wake
  split
  · rename_i h
    exact .inr ⟨h.1, rfl⟩
  · exact .inl rfl

theorem wake_free (now : BitVec 32) (p : Process) :
    (wake now p).state = .free ↔ p.state = .free := by
  rcases wake_cases now p with h | ⟨hs, h⟩ <;> simp_all

theorem Entry.wake {i : Slot} {p : Process} (h : Entry i p) (now : BitVec 32) :
    Entry i (wake now p) := by
  rcases wake_cases now p with hw | ⟨hs, hw⟩
  · rwa [hw]
  · rw [hw]
    have hh : p.halted = false := by
      rw [Bool.eq_false_iff, Ne, h.halted, hs]
      decide
    exact ⟨fun _ => h.pid (by simp [hs]), by simp, by simp [hh], by simp⟩

/-- The next state of a process that runs is never `FREE`. -/
theorem Control.occupied {p p' : Process} (h : Control p p') (hr : p.state = .ready) :
    p'.state ≠ .free := by
  cases h <;> simp_all

theorem Entry.own {i : Slot} {p p' : Process} {events : List Event} (h : Entry i p)
    (hr : p.state = .ready) (hl : Local p p' events) : Entry i p' := by
  have hne := hl.control.occupied hr
  have hh : p.halted = false := by
    rw [Bool.eq_false_iff, Ne, h.halted, hr]
    decide
  refine ⟨fun _ => hl.pid.trans (h.pid (by simp [hr])), fun hf => absurd hf hne, ?_, ?_⟩
  · cases hl.control <;> simp_all
  · intro hw
    cases hl.control with
    | blocked hs hhalt hrecv hpc hempty hmb =>
        refine ⟨?_, by rwa [hmb]⟩
        simpa only [Process.AtRecv, hl.program, hpc] using hrecv
    | same hs hhalt => simp_all
    | asleep hs hhalt => simp_all
    | stopped hs hhalt => simp_all

/-- A refused push leaves the mailbox as it was. -/
theorem mbMailboxPushRaw_refused {mb mb' : Mailbox} {cmd : Command} {rc : Status}
    (h : mbMailboxPushRaw mb cmd = .ok (rc, mb')) (hrc : rc ≠ .ok) : mb' = mb := by
  unfold mbMailboxPushRaw at h
  dsimp only at h
  repeat' split at h
  all_goals simp_all

/-- The process after a push onto its mailbox. -/
theorem Entry.push {i : Slot} {p : Process} (h : Entry i p) (hf : p.state ≠ .free) {cmd : Command}
    {rc : Status} {mb : Mailbox} (hp : mbMailboxPushRaw p.mailbox cmd = .ok (rc, mb)) :
    Entry i { p with
      mailbox := mb
      state := if rc = .ok ∧ p.state = .waiting then .ready else p.state } := by
  have hne : (if rc = .ok ∧ p.state = .waiting then ProcState.ready else p.state) ≠ .free := by
    split
    · decide
    · exact hf
  refine ⟨fun _ => h.pid hf, fun hz => absurd hz hne, ?_, ?_⟩
  · simp only [h.halted]
    split <;> simp_all
  · intro hw
    dsimp only at hw
    split at hw
    · cases hw
    · rename_i hcase
      have hrc : rc ≠ .ok := fun hok => hcase ⟨hok, hw⟩
      have hb := h.blocked hw
      exact ⟨hb.recv, by rw [mbMailboxPushRaw_refused hp hrc]; exact hb.empty⟩

/-- Only whether an entry is free matters to the count. -/
theorem Scheduler.occupied_congr {s s' : Scheduler}
    (h : ∀ i, (s'.proc i).state = .free ↔ (s.proc i).state = .free) : s'.occupied = s.occupied := by
  ext i
  simp only [mem_occupied, Ne, h i]

theorem Scheduler.setProc_free {s : Scheduler} {i : Slot} {p : Process}
    (h : (s.proc i).state ≠ .free) (hp : p.state ≠ .free) (j : Slot) :
    ((s.setProc i p).proc j).state = .free ↔ (s.proc j).state = .free := by
  rw [Scheduler.proc_setProc]
  split
  · rename_i hj
    subst hj
    simp [h, hp]
  · rfl

/-- A change of one occupied entry keeps the table. -/
theorem Table.setProc {s : Scheduler} {t t' : Trace} {i : Slot} {p : Process} (h : Table ⟨s, t⟩)
    (hf : (s.proc i).state ≠ .free) (hp : p.state ≠ .free) (he : Entry i p) :
    Table ⟨s.setProc i p, t'⟩ := by
  refine ⟨fun j => ?_, ?_, h.current⟩
  · show Entry j ((s.setProc i p).proc j)
    rw [Scheduler.proc_setProc]
    split
    · rename_i hj
      exact hj ▸ he
    · exact h.entry j
  · show s.count = _
    rw [Scheduler.occupied_congr (Scheduler.setProc_free hf hp)]
    exact h.count

/-- A spawn takes the first free entry, or does nothing. -/
theorem mbSchedSpawn_cases (s : Scheduler) (program : List Byte) :
    mbSchedSpawn s program = (0, s) ∨ ∃ i, (s.proc i).state = .free ∧
      mbSchedSpawn s program = (i.pid, { s.setProc i (mbProcInit i.pid program) with
        count := (s.count + 1) % 256 }) := by
  unfold mbSchedSpawn
  split
  · exact .inl rfl
  · rename_i i hi
    exact .inr ⟨i, by simpa using List.find?_some hi, rfl⟩

theorem proc_init (i : Slot) : System.init.sched.proc i = Process.zero := by
  simp [System.init, mbSchedInit, Scheduler.proc]

theorem Table.spawn {sys : System} (h : Table sys) (program : List Byte) :
    Table { sys with sched := (mbSchedSpawn sys.sched program).2 } := by
  rcases mbSchedSpawn_cases sys.sched program with hs | ⟨i, hfree, hs⟩
  · rw [hs]
    exact h
  · rw [hs]
    have hocc : ({ sys.sched.setProc i (mbProcInit i.pid program) with
        count := (sys.sched.count + 1) % 256 } : Scheduler).occupied =
        insert i sys.sched.occupied := by
      ext j
      rw [Finset.mem_insert, Scheduler.mem_occupied, Scheduler.mem_occupied]
      show ((sys.sched.setProc i _).proc j).state ≠ .free ↔ _
      rw [Scheduler.proc_setProc]
      by_cases hj : j = i
      · simp [hj, mbProcInit]
      · simp [hj]
    have hnot : i ∉ sys.sched.occupied := by simp [Scheduler.mem_occupied, hfree]
    have hcard := Finset.card_insert_of_notMem hnot
    have hle : sys.sched.occupied.card + 1 ≤ 8 := by
      rw [← hcard]
      exact Finset.card_le_univ _
    refine ⟨fun j => ?_, ?_, h.current⟩
    · show Entry j ((sys.sched.setProc i _).proc j)
      rw [Scheduler.proc_setProc]
      split
      · rename_i hj
        exact hj ▸ Entry.spawned i program
      · exact h.entry j
    · show (sys.sched.count + 1) % 256 = _
      rw [hocc, hcard, ← h.count]
      have := h.count
      omega

/-- The table invariant holds in every reached state. -/
theorem table_invariant : Invariant Table where
  init := by
    refine ⟨fun i => ?_, ?_, by decide⟩
    · rw [proc_init]
      exact Entry.zero i
    · show 0 = _
      rw [eq_comm, Finset.card_eq_zero, Finset.eq_empty_iff_forall_notMem]
      intro i
      rw [Scheduler.mem_occupied, proc_init]
      exact fun hne => hne rfl
  spawn sys program h := h.spawn program
  wake hal sys h := by
    have hfree : ∀ i, ((mbSchedWakeSleepers hal sys).sched.proc i).state = .free ↔
        (sys.sched.proc i).state = .free := by
      intro i
      rw [proc_wakeSleepers]
      exact wake_free _ _
    refine ⟨fun i => ?_, ?_, h.current⟩
    · rw [proc_wakeSleepers]
      exact (h.entry i).wake _
    · rw [Scheduler.occupied_congr hfree]
      exact h.count
  select sys current hc h := by
    refine ⟨h.entry, h.count, ?_⟩
    rcases hc with hc | rfl
    · exact hc
    · exact h.current
  own self sys sys' hm h := by
    obtain ⟨ready, change⟩ := hm
    exact h.setProc (by simp [ready]) (change.control.occupied ready)
      ((h.entry self).own ready change)
  push sys sys' hm h := by
    obtain ⟨hocc, hd⟩ := hm
    rename_i s s' t target cmd rc
    obtain ⟨mb, state, hmb, rfl, rfl⟩ := deliver_eq hd
    have he := (h.entry target).push hocc hmb
    refine h.setProc hocc ?_ he
    dsimp only
    split
    · decide
    · exact hocc

/-- The process of a slice is not halted before an instruction of it. -/
theorem Dispatched.running {hal : Hal} {self : Slot} {sys : System}
    (h : Dispatched hal self sys) : (sys.sched.proc self).halted = false := by
  rw [Bool.eq_false_iff, Ne, ((table_invariant.dispatched h).entry self).halted, h.ready]
  decide

end MiniBeam
