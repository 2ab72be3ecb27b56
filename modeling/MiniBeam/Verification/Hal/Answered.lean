import MiniBeam.Model.Board
import MiniBeam.Verification.Hardware

/-! The traces that bytecode leaves on a HAL, as one relation for every kind of run: each call was
in range, and was answered by the HAL from all that came before it. -/

namespace MiniBeam

/-- The traces of programs on `hal`. -/
inductive Answered (hal : Hal) : Trace → Prop
  | nil : Answered hal []
  | quiet {t : Trace} {e : Event} (before : Answered hal t)
      (he : ∀ pid call reply, e ≠ .hal pid call reply) : Answered hal (t ++ [e])
  | call {t : Trace} {call : HalCall} (pid : Byte) (before : Answered hal t)
      (range : call.InRange) : Answered hal (t ++ [.hal pid call (hal t call)])

section Step

variable {hal : Hal} {p p' : Process} {trace : Trace} {events : List Event} {rc : Status}

/-- What an instruction may add to the trace. -/
inductive Adds (hal : Hal) (t : Trace) : List Event → Prop
  | nothing : Adds hal t []
  | quiet {e : Event} (he : ∀ pid call reply, e ≠ .hal pid call reply) : Adds hal t [e]
  | call {call : HalCall} (pid : Byte) (range : call.InRange) :
      Adds hal t [.hal pid call (hal t call)]

theorem Answered.adds (h : Answered hal trace) (ha : Adds hal trace events) :
    Answered hal (trace ++ events) := by
  cases ha with
  | nothing => rwa [List.append_nil]
  | quiet he => exact h.quiet he
  | call pid range => exact h.call pid range

/-- One lemma for all instructions on their own process. -/
theorem Instr.run_adds {i : Instr} {scheduled : Bool} {preOpPc : ℕ}
    (h : i.run hal scheduled preOpPc p trace = .ok (rc, p', events)) : Adds hal trace events := by
  cases i with
  | callBif bifId args dst =>
      rcases callBif_calls h with ⟨-, rfl⟩ | ⟨-, b, call, load, -, hreq, rfl⟩
      · exact .nothing
      · rcases b.request_spec hreq with ⟨-, rfl⟩ | ⟨-, hrange, -⟩
        · exact .call _ trivial
        · exact .call _ hrange
  | recvCmd t a b c d =>
      obtain ⟨popped, -, h⟩ := bind_eq_ok.mp h
      rcases popped with _ | ⟨cmd, mb⟩
      · dsimp only at h
        split at h <;> cases h <;> exact .nothing
      · cases h
        exact .quiet (by simp)
  | sleepMs r =>
      simp only [Instr.run] at h
      split at h <;> cases h <;> exact .call _ trivial
  | jmpIfZero r offset =>
      simp only [Instr.run] at h
      split at h <;> cases h <;> exact .nothing
  | makeTuple dst elems | cons dst hd tl =>
      obtain ⟨⟨rc', q⟩, -, h⟩ := bind_eq_ok.mp h
      cases h
      exact .nothing
  | tupleElem dst tuple index =>
      simp only [Instr.run] at h
      split at h
      · obtain ⟨hdr, -, h⟩ := bind_eq_ok.mp h
        split at h
        · cases h
          exact .nothing
        · split at h
          · obtain ⟨w, -, h⟩ := bind_eq_ok.mp h
            cases h
            exact .nothing
          · cases h
            exact .nothing
      · cases h
        exact .nothing
  | head dst cell | tail dst cell =>
      simp only [Instr.run] at h
      split at h
      · obtain ⟨w, -, h⟩ := bind_eq_ok.mp h
        cases h
        exact .nothing
      · cases h
        exact .nothing
  | _ =>
      cases h
      exact .nothing

theorem sendFrom_adds {s s' : Scheduler} {self : Slot} {rPid rType rA rB rC rD : Reg}
    (h : sendFrom s self rPid rType rA rB rC rD = .ok (s', events)) : Adds hal trace events := by
  obtain ⟨found, -, h⟩ := bind_eq_ok.mp h
  cases found with
  | none =>
      cases h
      exact .nothing
  | some target =>
      obtain ⟨⟨rc, after⟩, -, h⟩ := bind_eq_ok.mp h
      cases h
      exact .quiet (by simp)

theorem mbProcStep_adds {m m' : Machine} (h : mbProcStep hal m = .ok (rc, m')) :
    ∃ events, m'.trace = m.trace ++ events ∧ Adds hal m.trace events := by
  rw [mbProcStep_eq] at h
  split at h
  · cases h
    exact ⟨[], (List.append_nil _).symm, .nothing⟩
  · split at h
    · cases h
      exact ⟨[], (List.append_nil _).symm, .nothing⟩
    · rename_i i pc hd
      by_cases hsend : i.IsSend
      · obtain ⟨a, b, c, d, e, f, rfl⟩ := hsend
        rcases m with ⟨p | ⟨s, self⟩, t⟩
        · cases h
          exact ⟨[], (List.append_nil _).symm, .nothing⟩
        · obtain ⟨⟨after, events⟩, hsend, h⟩ := bind_eq_ok.mp h
          cases h
          exact ⟨events, rfl, sendFrom_adds hsend⟩
      · obtain ⟨q, events, hrun, rfl⟩ := execInstr_ok hal _ hsend h
        exact ⟨events, rfl, Instr.run_adds hrun⟩

end Step

/-! ### Runs -/

namespace Answered

variable {hal : Hal} {m m' : Machine}

theorem step {rc : Status} (h : Answered hal m.trace) (hstep : mbProcStep hal m = .ok (rc, m')) :
    Answered hal m'.trace := by
  obtain ⟨events, htrace, hadds⟩ := mbProcStep_adds hstep
  rw [htrace]
  exact h.adds hadds

theorem round {maxSteps : ℕ} {end? : Option Status} (h : Answered hal m.trace)
    (hround : runRound hal maxSteps m = .ok (end?, m')) : Answered hal m'.trace := by
  unfold runRound at hround
  split at hround
  · cases hround
    exact h
  · obtain ⟨⟨rc, m₁⟩, hstep, hround⟩ := bind_eq_ok.mp hround
    have hnext := h.step hstep
    dsimp only at hround
    split at hround
    · cases hround
      exact hnext
    · split at hround
      · cases hround
        exact hnext
      · cases hround
        exact hnext

theorem loop {maxSteps fuel : ℕ} {rc : Status} (h : Answered hal m.trace)
    (hloop : runLoop hal maxSteps fuel m = .ok (rc, m')) : Answered hal m'.trace := by
  induction fuel generalizing m with
  | zero => cases hloop
  | succ fuel ih =>
      obtain ⟨⟨end?, m₁⟩, hround, hloop⟩ := bind_eq_ok.mp hloop
      cases end? with
      | some rc =>
          cases hloop
          exact h.round hround
      | none => exact ih (h.round hround) hloop

theorem invariant (hal : Hal) : StepInvariant hal fun sys => Answered hal sys.trace where
  init := .nil
  spawn _ _ h := h
  wake _ h := h.call 0 trivial
  select _ _ _ h := h
  push sys sys' hpush h := by
    cases hpush with
    | mk occupied delivered => exact h.quiet (by simp)
  budget _ _ _ _ h := h
  step self sys rc sys' _ hstep h := Answered.step (m := sys.machine self) h hstep

/-- What a call in a run was answered. -/
theorem split {t before after : Trace} {pid : Byte} {call : HalCall} {reply : HalReply}
    (h : Answered hal t) (ht : t = before ++ .hal pid call reply :: after) :
    Answered hal before ∧ call.InRange ∧ reply = hal before call := by
  induction h generalizing after with
  | nil => simp at ht
  | quiet hbefore he ih =>
      rcases List.eq_nil_or_concat after with rfl | ⟨rest, e, rfl⟩
      · obtain ⟨-, hlast⟩ := List.append_inj' ht rfl
        exact absurd (List.cons.inj hlast).1 (he pid call reply)
      · rw [List.concat_eq_append, ← List.cons_append, ← List.append_assoc] at ht
        exact ih (List.append_inj' ht rfl).1
  | call owner hbefore hrange ih =>
      rcases List.eq_nil_or_concat after with rfl | ⟨rest, e, rfl⟩
      · obtain ⟨rfl, hlast⟩ := List.append_inj' ht rfl
        obtain ⟨hevent, -⟩ := List.cons.inj hlast
        cases hevent
        exact ⟨hbefore, hrange, rfl⟩
      · rw [List.concat_eq_append, ← List.cons_append, ← List.append_assoc] at ht
        exact ih (List.append_inj' ht rfl).1

end Answered

theorem Reached.answered {hal : Hal} {sys : System} (h : Reached hal sys) :
    Answered hal sys.trace := (Answered.invariant hal).reached h

theorem VmRuns.answered {hal : Hal} {vm₀ vm : VmState} {t : Trace} (h : VmRuns hal vm₀ vm t) :
    Answered hal t := by
  apply VmRuns.induct (P := fun _ t => Answered hal t) .nil ?_ h
  intro vm t c vm' t' hruns ih hcall
  cases c with
  | push cmd =>
      obtain ⟨⟨rc, vm₁⟩, -, hcall⟩ := bind_eq_ok.mp hcall
      cases hcall
      exact ih
  | pop =>
      obtain ⟨⟨cmd, vm₁⟩, -, hcall⟩ := bind_eq_ok.mp hcall
      cases hcall
      exact ih
  | step =>
      obtain ⟨⟨rc, vm₁, t₁⟩, hvm, hcall⟩ := bind_eq_ok.mp hcall
      obtain ⟨⟨rc', m⟩, hstep, hend⟩ := bind_eq_ok.mp hvm
      cases hend
      cases hcall
      exact Answered.step (m := ⟨.compat (mbVmToProc vm), t⟩) ih hstep
  | run fuel maxSteps =>
      obtain ⟨⟨rc, vm₁, t₁⟩, hvm, hcall⟩ := bind_eq_ok.mp hcall
      obtain ⟨⟨rc', m⟩, hrun, hend⟩ := bind_eq_ok.mp hvm
      cases hend
      cases hcall
      exact Answered.loop (m := ⟨.compat (mbVmToProc vm), t⟩) ih hrun

/-! ### A HAL with a state -/

namespace Backend

variable {σ : Type} (b : Backend σ)

theorem past_eq (t past : Trace) (s : σ) : (t.foldl b.next (past, s)).1 = past ++ t := by
  induction t generalizing past s with
  | nil => rw [List.foldl_nil, List.append_nil]
  | cons e t ih =>
      rw [List.foldl_cons]
      exact (ih (past ++ [e]) _).trans (List.append_assoc past [e] t)

theorem after_snoc (t : Trace) (e : Event) : b.after (t ++ [e]) = (b.next (t, b.after t) e).2 := by
  have hpast : t.foldl b.next ([], b.init) = (t, b.after t) := by
    apply Prod.ext
    · exact b.past_eq t [] b.init
    · rfl
  rw [after, List.foldl_append, hpast]
  rfl

@[simp] theorem after_nil : b.after [] = b.init := rfl

theorem after_quiet (t : Trace) {e : Event} (he : ∀ pid call reply, e ≠ .hal pid call reply) :
    b.after (t ++ [e]) = b.after t := by
  rw [after_snoc]
  cases e with
  | hal pid call reply => exact absurd rfl (he pid call reply)
  | push | pop => rfl

theorem after_call (t : Trace) (pid : Byte) (call : HalCall) (reply : HalReply) :
    b.after (t ++ [.hal pid call reply]) = (b.call t (b.after t) call).2 :=
  b.after_snoc t _

/-- A property of the state that every call in range keeps holds after every trace of programs. -/
theorem holds {I : σ → Prop} (init : I b.init)
    (call : ∀ t s c, c.InRange → I s → I (b.call t s c).2) {t : Trace} (h : Answered b.hal t) :
    I (b.after t) := by
  induction h with
  | nil => exact init
  | quiet _ he ih => rwa [b.after_quiet _ he]
  | call pid _ range ih =>
      rw [b.after_call]
      exact call _ _ _ range ih

end Backend

end MiniBeam
