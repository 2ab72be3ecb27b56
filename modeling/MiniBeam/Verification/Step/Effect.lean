import MiniBeam.Verification.Step.Equations

/-! What one instruction can do to the process that runs it. Every later fact about the
scheduler is derived from these relations, and no later proof looks at the opcodes. -/

namespace MiniBeam

/-- A complete `RECV_CMD` stands at the pc. -/
def Process.AtRecv (p : Process) : Prop :=
  ∃ rType rA rB rC rD pc, decode p.program p.pc = (.ok (.recvCmd rType rA rB rC rD), pc)

/-- The ways an instruction moves the process between its states. -/
inductive Control (p p' : Process) : Prop
  | same (state : p'.state = p.state) (halted : p'.halted = p.halted)
  | blocked (state : p'.state = .waiting) (halted : p'.halted = p.halted) (recv : p.AtRecv)
      (pc : p'.pc = p.pc) (empty : mbMailboxPopRaw p.mailbox = .ok none)
      (mailbox : p'.mailbox = p.mailbox)
  | asleep (state : p'.state = .sleeping) (halted : p'.halted = p.halted)
  | stopped (state : p'.state = .halted) (halted : p'.halted = true)

/-- The ways an instruction uses the mailbox of its own process, with its events. -/
inductive Intake (p p' : Process) : List Event → Prop
  | keep (events : List Event) (mailbox : p'.mailbox = p.mailbox)
      (calls : ∀ e ∈ events, ∃ call reply, e = .hal p.pid call reply) : Intake p p' events
  | pop (cmd : Command) (popped : mbMailboxPopRaw p.mailbox = .ok (some (cmd, p'.mailbox))) :
      Intake p p' [.pop p.pid cmd]

/-- An instruction on its own process, from the process before its fetch. -/
structure Local (p p' : Process) (events : List Event) : Prop where
  pid : p'.pid = p.pid
  program : p'.program = p.program
  control : Control p p'
  intake : Intake p p' events

/-- The parts of a process that most instructions leave alone. -/
structure Quiet (p p' : Process) : Prop where
  pid : p'.pid = p.pid
  program : p'.program = p.program
  mailbox : p'.mailbox = p.mailbox
  state : p'.state = p.state
  halted : p'.halted = p.halted

theorem Quiet.refl (p : Process) : Quiet p p := ⟨rfl, rfl, rfl, rfl, rfl⟩

theorem Quiet.trans {p q r : Process} (h : Quiet p q) (h' : Quiet q r) : Quiet p r :=
  ⟨h'.pid.trans h.pid, h'.program.trans h.program, h'.mailbox.trans h.mailbox,
    h'.state.trans h.state, h'.halted.trans h.halted⟩

theorem Quiet.isLocal {p p' : Process} (h : Quiet p p') : Local p p' [] :=
  ⟨h.pid, h.program, .same h.state h.halted, .keep [] h.mailbox (by simp)⟩

theorem Quiet.isLocal_hal {p p' : Process} (h : Quiet p p') (call : HalCall) (reply : HalReply) :
    Local p p' [.hal p.pid call reply] :=
  ⟨h.pid, h.program, .same h.state h.halted, .keep _ h.mailbox (by simp)⟩

/-- What follows an instruction quietly is part of it. -/
theorem Local.quiet {p q r : Process} {events : List Event} (h : Local p q events)
    (hq : Quiet q r) (hpc : r.pc = q.pc) : Local p r events := by
  refine ⟨hq.pid.trans h.pid, hq.program.trans h.program, ?_, ?_⟩
  · cases h.control with
    | same hs hh => exact .same (hq.state.trans hs) (hq.halted.trans hh)
    | blocked hs hh hr hp he hm =>
        exact .blocked (hq.state.trans hs) (hq.halted.trans hh) hr (hpc.trans hp) he
          (hq.mailbox.trans hm)
    | asleep hs hh => exact .asleep (hq.state.trans hs) (hq.halted.trans hh)
    | stopped hs hh => exact .stopped (hq.state.trans hs) (hq.halted.trans hh)
  · cases h.intake with
    | keep _ hm hc => exact .keep events (hq.mailbox.trans hm) hc
    | pop cmd hp => exact .pop cmd (by rw [hp, hq.mailbox])

/-! ### The quiet operations -/

theorem quiet_setPc (p : Process) (n : ℕ) : Quiet p (p.setPc n) := ⟨rfl, rfl, rfl, rfl, rfl⟩

theorem quiet_setReg (p : Process) (r : Reg) (t : Term) : Quiet p (p.setReg r t) :=
  ⟨rfl, rfl, rfl, rfl, rfl⟩

theorem quiet_setHeap (p : Process) (heap : Heap) : Quiet p (p.setHeap heap) :=
  ⟨rfl, rfl, rfl, rfl, rfl⟩

theorem quiet_fail (p : Process) (e : Status) : Quiet p (p.fail e) := ⟨rfl, rfl, rfl, rfl, rfl⟩

theorem quiet_budget (p : Process) (n : ℕ) : Quiet p { p with reductions := n } :=
  ⟨rfl, rfl, rfl, rfl, rfl⟩

theorem quiet_loadCommand (p : Process) (t a b c d : Reg) (cmd : Command) :
    Quiet p (p.loadCommand t a b c d cmd) := ⟨rfl, rfl, rfl, rfl, rfl⟩

theorem quiet_jumpTo (p : Process) (offset : I32) : Quiet p (jumpTo p offset).2 := by
  unfold jumpTo
  split
  · exact Quiet.refl p
  · exact quiet_setPc p _

theorem quiet_gcRegs {p p' : Process} (h : gcRegs p = .ok p') : Quiet p p' := by
  obtain ⟨⟨roots, heap⟩, _, h⟩ := bind_eq_ok.mp h
  simp only [pure_ok, Except.ok.injEq] at h
  rw [← h]
  exact ⟨rfl, rfl, rfl, rfl, rfl⟩

theorem quiet_allocate {p p' : Process} {alloc : Process → Except Fault (Term × Heap)} {dst : Reg}
    {rc : Status} (h : allocate p alloc dst = .ok (rc, p')) : Quiet p p' := by
  obtain ⟨⟨t, heap⟩, _, h⟩ := bind_eq_ok.mp h
  dsimp only at h
  split at h
  · simp only [pure_ok, Except.ok.injEq, Prod.mk.injEq] at h
    rw [← h.2]
    exact (quiet_setHeap p heap).trans (quiet_setReg _ dst t)
  · obtain ⟨q, hq, h⟩ := bind_eq_ok.mp h
    obtain ⟨⟨t', heap'⟩, _, h⟩ := bind_eq_ok.mp h
    have hgc := ((quiet_setHeap p heap).trans (quiet_gcRegs hq)).trans (quiet_setHeap q heap')
    dsimp only at h
    split at h
    · simp only [pure_ok, Except.ok.injEq, Prod.mk.injEq] at h
      rw [← h.2]
      exact hgc.trans (quiet_setReg _ dst t')
    · simp only [pure_ok, Except.ok.injEq, Prod.mk.injEq] at h
      rw [← h.2]
      exact hgc

/-! ### Every instruction is local -/

section Run

variable {hal : Hal} {scheduled : Bool} {trace : Trace} {p : Process} {pc : ℕ}

theorem callBif_local {bifId dst : Byte} {args : List Reg} {rc : Status} {p' : Process}
    {events : List Event}
    (h : Instr.run hal scheduled p.pc (p.setPc pc) trace (.callBif bifId args dst) =
      .ok (rc, p', events)) : Local p p' events := by
  simp only [Instr.run] at h
  split at h
  · split at h <;> simp only [pure_ok, Except.ok.injEq, Prod.mk.injEq] at h <;>
      obtain ⟨-, rfl, rfl⟩ := h
    · exact (quiet_setPc p pc).isLocal
    · exact ((quiet_setPc p pc).trans ((quiet_setReg _ _ _).trans (quiet_fail _ _))).isLocal_hal _ _
  · simp only [pure_ok, Except.ok.injEq, Prod.mk.injEq] at h
    obtain ⟨-, rfl, rfl⟩ := h
    exact (quiet_setPc p pc).isLocal

/-- Loading a command and its status is quiet, whatever the command is. -/
theorem quiet_received (p : Process) (t a b c d : Reg) (cmd : Command) (rc : Status) :
    Quiet p ((p.loadCommand t a b c d cmd).fail rc) :=
  (quiet_loadCommand p t a b c d cmd).trans (quiet_fail _ rc)

theorem received_pc (p : Process) (t a b c d : Reg) (cmd : Command) (rc : Status) :
    ((p.loadCommand t a b c d cmd).fail rc).pc = p.pc := rfl

theorem popped_local {mb : Mailbox} {cmd : Command}
    (hp : mbMailboxPopRaw p.mailbox = .ok (some (cmd, mb))) :
    Local p ((p.setPc pc).setMailbox mb) [.pop p.pid cmd] :=
  ⟨rfl, rfl, .same rfl rfl, .pop cmd hp⟩

/-- A command that was popped, whatever is loaded for it. -/
theorem received_local {mb : Mailbox} {cmd : Command} (t a b c d : Reg) (seen : Command)
    (rc : Status) (hp : mbMailboxPopRaw p.mailbox = .ok (some (cmd, mb))) :
    Local p ((((p.setPc pc).setMailbox mb).loadCommand t a b c d seen).fail rc)
      [.pop p.pid cmd] :=
  (popped_local hp).quiet (quiet_received _ t a b c d seen rc) (received_pc _ t a b c d seen rc)

theorem recvCmd_local {t a b c d : Reg} {rc : Status} {p' : Process} {events : List Event}
    (hd : decode p.program p.pc = (.ok (.recvCmd t a b c d), pc))
    (h : Instr.run hal scheduled p.pc (p.setPc pc) trace (.recvCmd t a b c d) =
      .ok (rc, p', events)) : Local p p' events := by
  simp only [Instr.run] at h
  obtain ⟨popped, hp, h⟩ := bind_eq_ok.mp h
  rcases popped with _ | ⟨cmd, mb⟩
  · dsimp only at h
    split at h <;> simp only [pure_ok, Except.ok.injEq, Prod.mk.injEq] at h <;>
      obtain ⟨-, rfl, rfl⟩ := h
    · exact ⟨rfl, rfl, .blocked rfl rfl ⟨t, a, b, c, d, pc, hd⟩ rfl hp rfl,
        .keep [] rfl (by simp)⟩
    · exact ((quiet_setPc p pc).trans (quiet_received _ t a b c d _ _)).isLocal
  · simp only [pure_ok, Except.ok.injEq, Prod.mk.injEq] at h
    obtain ⟨-, rfl, rfl⟩ := h
    exact received_local t a b c d _ _ hp

theorem sleepMs_local {r : Reg} {rc : Status} {p' : Process} {events : List Event}
    (h : Instr.run hal scheduled p.pc (p.setPc pc) trace (.sleepMs r) = .ok (rc, p', events)) :
    Local p p' events := by
  simp only [Instr.run] at h
  split at h <;> simp only [pure_ok, Except.ok.injEq, Prod.mk.injEq] at h <;>
    obtain ⟨-, rfl, rfl⟩ := h
  · exact ⟨rfl, rfl, .asleep rfl rfl, .keep _ rfl (by simp)⟩
  · exact (quiet_setPc p pc).isLocal_hal _ _

theorem readWord_local {dst : Reg} {space : List Term} {i : ℕ} {rc : Status} {p' : Process}
    {events : List Event}
    (h : (do
      let w ← readWord space i
      return (.ok, (p.setPc pc).setReg dst w, [])) = Except.ok (rc, p', events)) :
    Local p p' events := by
  obtain ⟨w, -, h⟩ := bind_eq_ok.mp h
  simp only [pure_ok, Except.ok.injEq, Prod.mk.injEq] at h
  obtain ⟨-, rfl, rfl⟩ := h
  exact ((quiet_setPc p pc).trans (quiet_setReg _ dst w)).isLocal

theorem tupleElem_local {dst tuple : Reg} {index : Byte} {rc : Status} {p' : Process}
    {events : List Event}
    (h : Instr.run hal scheduled p.pc (p.setPc pc) trace (.tupleElem dst tuple index) =
      .ok (rc, p', events)) : Local p p' events := by
  simp only [Instr.run] at h
  split at h
  · obtain ⟨hdr, -, h⟩ := bind_eq_ok.mp h
    split at h
    · simp only [pure_ok, Except.ok.injEq, Prod.mk.injEq] at h
      obtain ⟨-, rfl, rfl⟩ := h
      exact (quiet_setPc p pc).isLocal
    · split at h
      · exact readWord_local h
      · simp only [pure_ok, Except.ok.injEq, Prod.mk.injEq] at h
        obtain ⟨-, rfl, rfl⟩ := h
        exact (quiet_setPc p pc).isLocal
  · simp only [pure_ok, Except.ok.injEq, Prod.mk.injEq] at h
    obtain ⟨-, rfl, rfl⟩ := h
    exact (quiet_setPc p pc).isLocal

theorem head_local {dst cell : Reg} {rc : Status} {p' : Process} {events : List Event}
    (h : Instr.run hal scheduled p.pc (p.setPc pc) trace (.head dst cell) =
      .ok (rc, p', events)) : Local p p' events := by
  simp only [Instr.run] at h
  split at h
  · exact readWord_local h
  · simp only [pure_ok, Except.ok.injEq, Prod.mk.injEq] at h
    obtain ⟨-, rfl, rfl⟩ := h
    exact (quiet_setPc p pc).isLocal

theorem tail_local {dst cell : Reg} {rc : Status} {p' : Process} {events : List Event}
    (h : Instr.run hal scheduled p.pc (p.setPc pc) trace (.tail dst cell) =
      .ok (rc, p', events)) : Local p p' events := by
  simp only [Instr.run] at h
  split at h
  · exact readWord_local h
  · simp only [pure_ok, Except.ok.injEq, Prod.mk.injEq] at h
    obtain ⟨-, rfl, rfl⟩ := h
    exact (quiet_setPc p pc).isLocal

theorem allocate_local {alloc : Process → Except Fault (Term × Heap)} {dst : Reg} {rc : Status}
    {p' : Process} {events : List Event}
    (h : (do
      let (rc, p) ← allocate (p.setPc pc) alloc dst
      return (rc, p, [])) = Except.ok (rc, p', events)) : Local p p' events := by
  obtain ⟨⟨rc', q⟩, hq, h⟩ := bind_eq_ok.mp h
  simp only [pure_ok, Except.ok.injEq, Prod.mk.injEq] at h
  obtain ⟨-, rfl, rfl⟩ := h
  exact ((quiet_setPc p pc).trans (quiet_allocate hq)).isLocal

/-- An instruction works on its own process only. -/
theorem Instr.run_local {i : Instr} {rc : Status} {p' : Process} {events : List Event}
    (hd : decode p.program p.pc = (.ok i, pc))
    (h : i.run hal scheduled p.pc (p.setPc pc) trace = .ok (rc, p', events)) :
    Local p p' events := by
  have hpc := quiet_setPc p pc
  cases i with
  | callBif bifId args dst => exact callBif_local h
  | recvCmd t a b c d => exact recvCmd_local hd h
  | sleepMs r => exact sleepMs_local h
  | tupleElem dst tuple index => exact tupleElem_local h
  | head dst cell => exact head_local h
  | tail dst cell => exact tail_local h
  | makeTuple dst elems => exact allocate_local h
  | cons dst hd tl => exact allocate_local h
  | jmpIfZero r offset =>
      simp only [Instr.run] at h
      split at h <;> simp only [pure_ok, Except.ok.injEq, Prod.mk.injEq] at h <;>
        obtain ⟨-, rfl, rfl⟩ := h
      · exact (hpc.trans (quiet_jumpTo _ offset)).isLocal
      · exact hpc.isLocal
  | halt =>
      simp only [Instr.run, pure_ok, Except.ok.injEq, Prod.mk.injEq] at h
      obtain ⟨-, rfl, rfl⟩ := h
      exact ⟨rfl, rfl, .stopped rfl rfl, .keep [] rfl (by simp)⟩
  | _ =>
      simp only [Instr.run, pure_ok, Except.ok.injEq, Prod.mk.injEq] at h
      obtain ⟨-, rfl, rfl⟩ := h
      first
        | exact hpc.isLocal
        | exact (hpc.trans (quiet_setReg _ _ _)).isLocal
        | exact (hpc.trans (quiet_budget _ _)).isLocal
        | exact (hpc.trans (quiet_jumpTo _ _)).isLocal

end Run

/-! ### The statuses of a step -/

theorem jumpTo_status (p : Process) (offset : I32) :
    (jumpTo p offset).1 = .ok ∨ (jumpTo p offset).1.isError := by
  unfold jumpTo
  split
  · exact .inr rfl
  · dsimp only
    split
    · exact .inl rfl
    · exact .inr rfl

theorem allocate_status {p p' : Process} {alloc : Process → Except Fault (Term × Heap)} {dst : Reg}
    {rc : Status} (h : allocate p alloc dst = .ok (rc, p')) : rc = .ok ∨ rc.isError := by
  obtain ⟨⟨t, heap⟩, -, h⟩ := bind_eq_ok.mp h
  dsimp only at h
  split at h
  · cases h
    exact .inl rfl
  · obtain ⟨q, -, h⟩ := bind_eq_ok.mp h
    obtain ⟨⟨t', heap'⟩, -, h⟩ := bind_eq_ok.mp h
    dsimp only at h
    split at h
    · cases h
      exact .inl rfl
    · cases h
      exact .inr rfl

theorem checked_refused {α : Type} {ok : Bool} {a : α} {e : Status}
    (h : checked ok .badArgument a = .error e) : e = .badArgument ∨ e = .badArgc := by
  cases ok
  · cases h
    exact .inl rfl
  · cases h

/-- A BIF refuses its arguments or their number. -/
theorem Bif.request_refused {b : Bif} {args : List I32} {e : Status}
    (h : b.request args = .error e) : e = .badArgument ∨ e = .badArgc := by
  by_cases hlen : args.length = b.arity
  · rcases args with _ | ⟨_, _ | ⟨_, _ | ⟨_, _ | ⟨_, _ | ⟨_, _⟩⟩⟩⟩⟩ <;> cases b <;>
      first | exact checked_refused h | (simp [Bif.arity] at hlen; done) | cases h
  · rw [Bif.request_of_ne hlen] at h
    cases h
    exact .inr rfl

theorem bifRequest_refused {bifId : Byte} {args : List I32} {e : Status}
    (h : bifRequest bifId args = .error e) : e.isError ∧ e ≠ .heapOom := by
  unfold bifRequest at h
  split at h
  · rcases Bif.request_refused h with rfl | rfl <;> decide
  · cases h
    decide

section Status

variable {hal : Hal} {scheduled : Bool} {preOpPc : ℕ} {trace : Trace}

theorem Instr.run_status {p p' : Process} {rc : Status} {events : List Event} {i : Instr}
    (h : i.run hal scheduled preOpPc p trace = .ok (rc, p', events)) :
    rc = .ok ∨ rc.isError := by
  cases i with
  | callBif bifId args dst =>
      simp only [Instr.run] at h
      split at h
      · split at h
        · rename_i hreq
          cases h
          exact .inr (bifRequest_refused hreq).1
        · cases h
          exact .inl rfl
      · cases h
        exact .inr rfl
  | recvCmd t a b c d =>
      obtain ⟨popped, -, h⟩ := bind_eq_ok.mp h
      rcases popped with _ | ⟨cmd, mb⟩
      · dsimp only at h
        split at h <;> cases h <;> exact .inl rfl
      · cases h
        exact .inl rfl
  | makeTuple dst elems | cons dst hd tl =>
      obtain ⟨⟨rc', q⟩, hq, h⟩ := bind_eq_ok.mp h
      cases h
      exact allocate_status hq
  | jmpIfZero r offset =>
      simp only [Instr.run] at h
      split at h
      · cases h
        exact jumpTo_status _ _
      · cases h
        exact .inl rfl
  | jmp offset =>
      cases h
      exact jumpTo_status _ _
  | tupleElem dst tuple index =>
      simp only [Instr.run] at h
      split at h
      · obtain ⟨hdr, -, h⟩ := bind_eq_ok.mp h
        split at h
        · cases h
          exact .inr rfl
        · split at h
          · obtain ⟨w, -, h⟩ := bind_eq_ok.mp h
            cases h
            exact .inl rfl
          · cases h
            exact .inr rfl
      · cases h
        exact .inr rfl
  | sleepMs r =>
      simp only [Instr.run] at h
      split at h <;> cases h <;> exact .inl rfl
  | head dst cell | tail dst cell =>
      simp only [Instr.run] at h
      split at h
      · obtain ⟨w, -, h⟩ := bind_eq_ok.mp h
        cases h
        exact .inl rfl
      · cases h
        exact .inr rfl
  | _ =>
      cases h
      exact .inl rfl

theorem execInstr_status {m m' : Machine} {rc : Status} {i : Instr}
    (h : execInstr hal preOpPc m i = .ok (rc, m')) : rc = .ok ∨ rc.isError := by
  by_cases hs : i.IsSend
  · obtain ⟨a, b, c, d, e, f, rfl⟩ := hs
    rcases m with ⟨p | ⟨s, self⟩, t⟩
    · cases h
      exact .inl rfl
    · obtain ⟨⟨after, events⟩, -, h⟩ := bind_eq_ok.mp h
      cases h
      exact .inl rfl
  · obtain ⟨p', events, hrun, -⟩ := execInstr_ok hal preOpPc hs h
    exact Instr.run_status hrun

/-- A step returns `MB_OK` or an error of an instruction. -/
theorem mbProcStep_status {m m' : Machine} {rc : Status} (h : mbProcStep hal m = .ok (rc, m')) :
    rc = .ok ∨ rc.isError := by
  rw [mbProcStep_eq] at h
  split at h
  · cases h
    exact .inl rfl
  · split at h
    · rename_i e pc hd
      cases h
      exact .inr (decode_proper _ m.proc.pc rc (by rw [hd]))
    · exact execInstr_status h

end Status

end MiniBeam
