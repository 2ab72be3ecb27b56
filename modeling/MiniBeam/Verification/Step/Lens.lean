import MiniBeam.Model.Scheduler

/-! Reading and writing the table, the machine and the fields of a process. -/

namespace MiniBeam

@[simp] theorem pure_ok {α : Type} (a : α) : (pure a : Except Fault α) = .ok a := rfl

@[simp] theorem ok_bind {α β : Type} (a : α) (k : α → Except Fault β) :
    (Except.ok a >>= k) = k a := rfl

@[simp] theorem error_bind {α β : Type} (f : Fault) (k : α → Except Fault β) :
    (Except.error f >>= k) = .error f := rfl

/-- A computation that finishes went through its first part. -/
theorem bind_eq_ok {α β : Type} {x : Except Fault α} {k : α → Except Fault β} {b : β} :
    (x >>= k) = .ok b ↔ ∃ a, x = .ok a ∧ k a = .ok b := by
  cases x <;> simp

/-- A result known by its image. -/
theorem exists_ok_of_map {α β : Type} (x : Except Fault α) (f : α → β) (b : β)
    (h : x.map f = .ok b) : ∃ a, x = .ok a ∧ f a = b := by
  cases x with
  | error e => cases h
  | ok a => exact ⟨a, rfl, Except.ok.inj h⟩

/-- A HAL on which every call succeeds and the clock stands still. -/
def idleHal : Hal := fun _ _ => ⟨0, 0, 0⟩

namespace Scheduler

@[simp] theorem proc_setProc_self (s : Scheduler) (i : Slot) (p : Process) :
    (s.setProc i p).proc i = p := by
  simp [proc, setProc]

theorem proc_setProc_ne (s : Scheduler) {i j : Slot} (p : Process) (h : j ≠ i) :
    (s.setProc i p).proc j = s.proc j := by
  have hv : (i : ℕ) ≠ j := fun he => h (Fin.ext he.symm)
  simp [proc, setProc, hv]

theorem proc_setProc (s : Scheduler) (i j : Slot) (p : Process) :
    (s.setProc i p).proc j = if j = i then p else s.proc j := by
  by_cases h : j = i
  · subst h; simp
  · rw [if_neg h, proc_setProc_ne s p h]

@[simp] theorem setProc_proc (s : Scheduler) (i : Slot) : s.setProc i (s.proc i) = s := by
  simp [setProc, proc]

@[simp] theorem setProc_setProc (s : Scheduler) (i : Slot) (p q : Process) :
    (s.setProc i p).setProc i q = s.setProc i q := by
  simp [setProc]

end Scheduler

/-- A pid is looked up by which entries are free, and by nothing else. -/
theorem mbSchedProc_congr {s s' : Scheduler}
    (h : ∀ i, (s'.proc i).state = .free ↔ (s.proc i).state = .free) (pid : Byte) :
    mbSchedProc s' pid = mbSchedProc s pid := by
  simp only [mbSchedProc, h]

namespace Machine

/-- The machine with more events. -/
def emit (m : Machine) (events : List Event) : Machine := { m with trace := m.trace ++ events }

@[simp] theorem emit_nil (m : Machine) : m.emit [] = m := by
  simp [emit]

@[simp] theorem proc_emit (m : Machine) (events : List Event) : (m.emit events).proc = m.proc := rfl

@[simp] theorem emit_setProc (m : Machine) (events : List Event) (p : Process) :
    (m.emit events).setProc p = (m.setProc p).emit events := rfl

@[simp] theorem proc_setProc (m : Machine) (p : Process) : (m.setProc p).proc = p := by
  rcases m with ⟨_ | _, _⟩ <;> simp [setProc, proc, Context.setProc, Context.proc]

@[simp] theorem setProc_proc (m : Machine) : m.setProc m.proc = m := by
  rcases m with ⟨_ | _, _⟩ <;> simp [setProc, proc, Context.setProc, Context.proc]

@[simp] theorem setProc_setProc (m : Machine) (p q : Process) :
    (m.setProc p).setProc q = m.setProc q := by
  rcases m with ⟨_ | _, _⟩ <;> simp [setProc, Context.setProc]

@[simp] theorem trace_setProc (m : Machine) (p : Process) : (m.setProc p).trace = m.trace := rfl

@[simp] theorem scheduled_setProc (m : Machine) (p : Process) :
    (m.setProc p).ctx.scheduled = m.ctx.scheduled := by
  rcases m with ⟨_ | _, _⟩ <;> rfl

end Machine

end MiniBeam
