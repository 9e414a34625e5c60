import CardTap.Proofs.Device.Changes
import CardTap.Proofs.Ends

/-!
# Sections with interrupts masked

A section saves the status register on entry and on exit lets interrupts through again only if what
it saved did.  A section within another one has saved a masked status, so that leaving it changes
nothing: what an open section saved is told by how deep it is, and so is the status register at
every point of a program (`interrupts_back_at_outermost_exit`).
-/

namespace CardTap.Device

open CardTap.Run

/-! ## Programs with sections -/

/-- A step of a program: it enters a section, leaves the innermost one, or accesses a register
without writing the status register. -/
inductive SectionStep where
  | enter
  | leave
  | read (addr : Nat)
  | write (addr : Nat) (value : UInt8) (haddr : addr ≠ Reg.sreg)

/-- The registers, and what the open sections saved of the status register, the innermost first. -/
structure Sections where
  file : RegisterFile
  saved : List UInt8 := []

namespace Sections

/-- The registers alone. -/
def registers : Part RegisterFile Sections := ⟨Sections.file, fun m s => { s with file := m }⟩

/-- The status register. -/
def status (s : Sections) : UInt8 := s.file.values Reg.sreg

/-- Whatever was written to the status register between two points has the value before and leaves
the value behind: in between there is no other one. -/
def OneChange (s s' : Sections) : Prop :=
  ∃ made, s'.file.accesses = s.file.accesses ++ made ∧
    ∀ w, .write w ∈ made → w.addr = Reg.sreg →
      w.before Reg.sreg = s.status ∧ w.after Reg.sreg = s'.status

end Sections

namespace SectionStep

/-- Acts on the registers. -/
def act {α : Type} (body : Run RegisterFile α) : Run Sections α :=
  Run.within Sections.registers.get Sections.registers.put body

/-- Makes a step: leaving a section hands back what entering it answered. -/
def run : SectionStep → Run Sections Unit
  | .enter => do
    let status ← act RegisterFile.registers.maskInterrupts
    Run.change fun s => { s with saved := status :: s.saved }
  | .leave => do
    match ← Run.read Sections.saved with
    | [] => pure ()
    | status :: outer =>
      act (RegisterFile.registers.restoreInterrupts status)
      Run.change fun s => { s with saved := outer }
  | .read addr => do
    let _ ← act (RegisterFile.registers.read addr)
  | .write addr value _ => act (RegisterFile.registers.write addr value)

/-- Makes steps in a row. -/
def runAll (steps : List SectionStep) : Run Sections Unit := steps.forM run

/-- How many sections are open behind the steps; nothing if one is left that was not entered. -/
def openAfter : Nat → List SectionStep → Option Nat
  | depth, [] => some depth
  | depth, .enter :: rest => openAfter (depth + 1) rest
  | 0, .leave :: _ => none
  | depth + 1, .leave :: rest => openAfter depth rest
  | depth, .read _ :: rest => openAfter depth rest
  | depth, .write .. :: rest => openAfter depth rest

/-- Every section is left, and only after it was entered. -/
def WellNested (steps : List SectionStep) : Prop := openAfter 0 steps = some 0

instance (steps : List SectionStep) : Decidable (WellNested steps) :=
  inferInstanceAs (Decidable (_ = _))

theorem openAfter_append (depth : Nat) (before after : List SectionStep) :
    openAfter depth (before ++ after) = (openAfter depth before).bind (openAfter · after) := by
  induction before generalizing depth with
  | nil => rfl
  | cons step before ih =>
    cases step with
    | enter | read | write => exact ih _
    | leave =>
      cases depth with
      | zero => rfl
      | succ depth => exact ih depth

end SectionStep

/-! ## The status register by the depth -/

section Status

/-- The status with interrupts masked. -/
def maskedStatus (status : UInt8) : UInt8 := status &&& ~~~interruptBit

/-- The status register inside so many sections. -/
def statusAt (status : UInt8) : Nat → UInt8
  | 0 => status
  | _ + 1 => maskedStatus status

/-- What so many open sections saved, the innermost first. -/
def savedAt (status : UInt8) : Nat → List UInt8
  | 0 => []
  | depth + 1 => statusAt status depth :: savedAt status depth

/-- What leaving a section makes of the status register. -/
def restoredStatus (saved now : UInt8) : UInt8 :=
  if saved &&& interruptBit != 0 then now ||| interruptBit else now

variable (status : UInt8)

theorem masked_bit : maskedStatus status &&& interruptBit = 0 :=
  and_clear_of_subset UInt8.and_self

theorem masked_others : maskedStatus status &&& ~~~interruptBit = status &&& ~~~interruptBit := by
  rw [maskedStatus, UInt8.and_assoc, UInt8.and_self]

theorem masked_masked : maskedStatus (maskedStatus status) = maskedStatus status :=
  masked_others status

theorem statusAt_succ (depth : Nat) :
    maskedStatus (statusAt status depth) = statusAt status (depth + 1) := by
  cases depth with
  | zero => rfl
  | succ depth => exact masked_masked status

theorem restoredStatus_masked : restoredStatus status (maskedStatus status) = status := by
  have hall : ∀ n : Fin 256,
      restoredStatus (UInt8.ofNat n.val) (maskedStatus (UInt8.ofNat n.val)) =
        UInt8.ofNat n.val := by
    decide +kernel
  have hstatus := hall ⟨status.toNat, status.toNat_lt⟩
  rwa [UInt8.ofNat_toNat] at hstatus

/-- Leaving a section brings back the status that it was entered with. -/
theorem restoredStatus_statusAt (depth : Nat) :
    restoredStatus (statusAt status depth) (statusAt status (depth + 1)) =
      statusAt status depth := by
  cases depth with
  | zero => exact restoredStatus_masked status
  | succ depth =>
    rw [statusAt, statusAt, restoredStatus, masked_bit]
    rfl

end Status

/-! ## Entering and leaving -/

/-- A machine whose status register reads back what was written to it.  An access to it may change
more of the machine. -/
structure StatusRegister {σ : Type} (r : Registers σ) where
  value : σ → UInt8
  read : σ → σ
  write : UInt8 → σ → σ
  read_returns : ∀ s, (r.read Reg.sreg).Returns s (value s) (read s)
  write_returns : ∀ new s, (r.write Reg.sreg new).Returns s () (write new s)
  value_write : ∀ new s, value (write new s) = new

namespace StatusRegister

variable {σ α : Type} {r : Registers σ} (reg : StatusRegister r)

/-- The machine inside a section. -/
def entered (s : σ) : σ := reg.write (maskedStatus (reg.value s)) (reg.read s)

/-- The machine behind a section that saved this status. -/
def left (saved : UInt8) (s : σ) : σ :=
  if saved &&& interruptBit != 0 then reg.write (reg.value s ||| interruptBit) (reg.read s) else s

theorem value_entered (s : σ) : reg.value (reg.entered s) = maskedStatus (reg.value s) :=
  reg.value_write _ _

theorem value_left (saved : UInt8) (s : σ) :
    reg.value (reg.left saved s) = restoredStatus saved (reg.value s) := by
  unfold left restoredStatus
  split
  · exact reg.value_write _ _
  · rfl

theorem maskInterrupts_returns (s : σ) :
    r.maskInterrupts.Returns s (reg.value s) (reg.entered s) :=
  Returns.bind (reg.read_returns s) (Returns.bind (reg.write_returns _ _) (Returns.pure _ _))

theorem restoreInterrupts_returns (saved : UInt8) (s : σ) :
    (r.restoreInterrupts saved).Returns s () (reg.left saved s) := by
  unfold Registers.restoreInterrupts left
  split
  · exact Returns.bind (reg.read_returns s) (reg.write_returns _ _)
  · exact Returns.pure () s

/-- A section around a run. -/
theorem masked_ends {body : Run σ α} {s : σ} {Q : α → σ → Prop}
    (h : body.Ends (reg.entered s) fun a s' => Q a (reg.left (reg.value s) s')) :
    (r.masked body).Ends s Q := by
  refine Ends.after (reg.maskInterrupts_returns s) (Ends.ensure (h.mono fun a s' hQ => ?_))
  exact (reg.restoreInterrupts_returns _ s').ends hQ

end StatusRegister

namespace RegisterFile

/-- The status register of a register file. -/
def statusRegister : StatusRegister registers where
  value m := m.values Reg.sreg
  read m := { m with accesses := m.accesses ++ [.read Reg.sreg (m.values Reg.sreg)] }
  write new m := m.written Reg.sreg new
  read_returns _ := read_returns (by decide)
  write_returns _ _ := write_returns _ _
  value_write new m := Change.done_addr (.put Reg.sreg new) m.values

/-- The changes that leave a section. -/
def leaving (saved : UInt8) : List Change :=
  if saved &&& interruptBit != 0 then [.set Reg.sreg interruptBit] else []

theorem entered_eq (m : RegisterFile) :
    statusRegister.entered m = m.changed [.clear Reg.sreg interruptBit] :=
  congrArg (RegisterFile.mk _ m.pins) (List.append_assoc ..)

theorem left_eq (saved : UInt8) (m : RegisterFile) :
    statusRegister.left saved m = m.changed (leaving saved) := by
  unfold StatusRegister.left leaving
  split
  · exact congrArg (RegisterFile.mk _ m.pins) (List.append_assoc ..)
  · exact congrArg (RegisterFile.mk _ m.pins) (List.append_nil _).symm

/-- Leaving a section changes the status register only. -/
theorem values_leaving {addr : Nat} (h : addr ≠ Reg.sreg) (m : RegisterFile) (saved : UInt8) :
    (m.changed (leaving saved)).values addr = m.values addr := by
  unfold leaving
  split
  · exact Change.done_of_ne h
  · rfl

end RegisterFile

/-- What is left behind the innermost section. -/
def Sections.left (s : Sections) : Sections :=
  match s.saved with
  | [] => s
  | status :: outer => { file := s.file.changed (RegisterFile.leaving status), saved := outer }

namespace SectionStep

/-- What is left behind a step. -/
def after (s : Sections) : SectionStep → Sections
  | .enter =>
    { file := s.file.changed [.clear Reg.sreg interruptBit], saved := s.status :: s.saved }
  | .leave => s.left
  | .read addr => { s with file := (s.file.fetched addr).2 }
  | .write addr value _ => { s with file := s.file.written addr value }

theorem run_returns (step : SectionStep) (s : Sections) :
    step.run.Returns s () (step.after s) := by
  cases step with
  | enter =>
    have hmask := RegisterFile.statusRegister.maskInterrupts_returns s.file
    rw [RegisterFile.entered_eq] at hmask
    exact Returns.bind (Returns.within hmask) (Returns.change _ _)
  | leave =>
    refine Returns.bind (Returns.read _ s) ?_
    rw [after, Sections.left]
    split
    · exact Returns.pure () s
    · next status _ _ =>
      have hrestore := RegisterFile.statusRegister.restoreInterrupts_returns status s.file
      rw [RegisterFile.left_eq] at hrestore
      exact Returns.bind (Returns.within hrestore) (Returns.change _ _)
  | read addr =>
    have hread := Returns.step (fun m : RegisterFile => m.fetched addr) s.file
    exact Returns.bind (Returns.within hread) (Returns.pure () _)
  | write addr value haddr => exact Returns.within (RegisterFile.write_returns addr value)

theorem runAll_returns (steps : List SectionStep) (s : Sections) :
    (runAll steps).Returns s () (steps.foldl after s) := by
  induction steps generalizing s with
  | nil => exact Returns.pure () s
  | cons step steps ih => exact Returns.bind (run_returns step s) (ih _)

end SectionStep

/-! ## What a step does to the status register -/

namespace Sections

variable {s : Sections} {status : UInt8} {depth depth' : Nat}

/-- Inside so many sections, entered while the status register was `status`. -/
structure At (status : UInt8) (depth : Nat) (s : Sections) : Prop where
  now : s.status = statusAt status depth
  saved : s.saved = savedAt status depth

/-- A step without a write to the status register. -/
theorem oneChange_of_unwritten {s' : Sections} {made : List Access}
    (hmade : s'.file.accesses = s.file.accesses ++ made)
    (hnone : ∀ w, .write w ∈ made → w.addr ≠ Reg.sreg) : s.OneChange s' :=
  ⟨made, hmade, fun w hw haddr => absurd haddr (hnone w hw)⟩

/-- At most one change of a register. -/
theorem oneChange_changed (cs : List Change) (h : cs.length ≤ 1) (saved : List UInt8) :
    s.OneChange { file := s.file.changed cs, saved } := by
  match cs, h with
  | [], _ => exact oneChange_of_unwritten rfl nofun
  | [c], _ =>
    refine ⟨_, rfl, fun w hw _ => ?_⟩
    have hwrite := Change.mem_trace hw
    rw [Change.writes, Change.writes, List.mem_singleton] at hwrite
    subst hwrite
    exact ⟨rfl, rfl⟩

theorem fetched_accesses (m : RegisterFile) (addr : Nat) :
    ∃ value, (m.fetched addr).2.accesses = m.accesses ++ [.read addr value] := by
  unfold RegisterFile.fetched
  split <;> exact ⟨_, rfl⟩

theorem fetched_values (m : RegisterFile) (addr : Nat) : (m.fetched addr).2.values = m.values := by
  unfold RegisterFile.fetched
  split <;> rfl

theorem oneChange_after (s : Sections) (step : SectionStep) : s.OneChange (step.after s) := by
  cases step with
  | enter => exact oneChange_changed [_] (Nat.le_refl 1) _
  | leave =>
    rw [SectionStep.after, Sections.left]
    split
    · exact oneChange_of_unwritten (List.append_nil _).symm nofun
    · refine oneChange_changed _ ?_ _
      unfold RegisterFile.leaving
      split <;> exact Nat.le_of_ble_eq_true rfl
  | read addr =>
    obtain ⟨value, hmade⟩ := fetched_accesses s.file addr
    refine oneChange_of_unwritten hmade fun w hw => ?_
    cases List.mem_singleton.1 hw
  | write addr value haddr =>
    refine oneChange_of_unwritten rfl fun w hw => ?_
    cases List.mem_singleton.1 hw
    exact haddr

/-! ## The depth tells the status -/

theorem At.enter (h : At status depth s) : At status (depth + 1) (SectionStep.enter.after s) where
  now := by
    rw [← statusAt_succ, ← h.now, SectionStep.after, ← RegisterFile.entered_eq]
    exact RegisterFile.statusRegister.value_entered s.file
  saved := by
    rw [savedAt, ← h.now, ← h.saved]
    rfl

theorem At.leave (h : At status (depth + 1) s) : At status depth (SectionStep.leave.after s) := by
  have hsaved : s.saved = statusAt status depth :: savedAt status depth := h.saved
  have hafter : SectionStep.leave.after s =
      { file := s.file.changed (RegisterFile.leaving (statusAt status depth))
        saved := savedAt status depth } := by
    rw [SectionStep.after, Sections.left, hsaved]
  rw [hafter]
  constructor
  · have hnow : s.file.values Reg.sreg = statusAt status (depth + 1) := h.now
    have hleft := RegisterFile.statusRegister.value_left (statusAt status depth) s.file
    rw [RegisterFile.left_eq] at hleft
    exact hleft.trans ((congrArg _ hnow).trans (restoredStatus_statusAt status depth))
  · rfl

theorem At.after {before : List SectionStep} (h : At status depth s)
    (hopen : SectionStep.openAfter depth before = some depth') :
    At status depth' (before.foldl SectionStep.after s) := by
  induction before generalizing s depth with
  | nil =>
    obtain rfl := Option.some.inj hopen
    exact h
  | cons step before ih =>
    cases step with
    | enter => exact ih h.enter hopen
    | leave =>
      cases depth with
      | zero => cases hopen
      | succ depth => exact ih h.leave hopen
    | read addr =>
      have hread : At status depth ((SectionStep.read addr).after s) :=
        ⟨(congrFun (fetched_values s.file addr) _).trans h.now, h.saved⟩
      exact ih hread hopen
    | write addr value haddr =>
      have hother : (s.file.written addr value).values Reg.sreg = s.file.values Reg.sreg :=
        Function.update_of_ne haddr.symm ..
      have hwrite : At status depth ((SectionStep.write addr value haddr).after s) :=
        ⟨hother.trans h.now, h.saved⟩
      exact ih hwrite hopen

end Sections

/-! ## At every point of a program -/

/-- What the status register may be inside so many sections, when it was `status` before them.  Its
topmost bit lets interrupts through. -/
structure KeepsInterrupts (status : UInt8) (depth : Nat) (now : UInt8) : Prop where
  inside : 0 < depth → now &&& 0x80 = 0
  outside : depth = 0 → now &&& 0x80 = status &&& 0x80
  others : now &&& 0x7F = status &&& 0x7F

theorem keepsInterrupts_statusAt (status : UInt8) (depth : Nat) :
    KeepsInterrupts status depth (statusAt status depth) := by
  cases depth with
  | zero => exact ⟨nofun, fun _ => rfl, rfl⟩
  | succ depth => exact ⟨fun _ => masked_bit status, nofun, masked_others status⟩

/-- **Interrupts come back exactly at the outermost exit.**  At every point of a program whose
sections are well nested, whatever the status register was at first and whatever else the program
reads and writes: inside a section interrupts are masked, outside all of them they are as at first,
and no other bit of the status register is ever changed.  The step behind the point takes the status
register at once from its value here to the one behind the step. -/
theorem interrupts_back_at_outermost_exit (m : RegisterFile) (before after : List SectionStep)
    (h : SectionStep.WellNested (before ++ after)) :
    ∃ depth s, SectionStep.openAfter 0 before = some depth ∧
      (SectionStep.runAll before).Returns ⟨m, []⟩ () s ∧
      KeepsInterrupts (m.values Reg.sreg) depth s.status ∧
      ∀ step : SectionStep, ∃ s', step.run.Returns s () s' ∧ s.OneChange s' := by
  rw [SectionStep.WellNested, SectionStep.openAfter_append, Option.bind_eq_some_iff] at h
  obtain ⟨depth, hopen, -⟩ := h
  have hstart : Sections.At (m.values Reg.sreg) 0 ⟨m, []⟩ := ⟨rfl, rfl⟩
  have hpoint := hstart.after hopen
  refine ⟨depth, _, hopen, SectionStep.runAll_returns before _, ?_, fun step => ?_⟩
  · rw [hpoint.now]
    exact keepsInterrupts_statusAt _ depth
  · exact ⟨_, SectionStep.run_returns step _, Sections.oneChange_after _ step⟩

/-- A section within another one is left again, with interrupts let through at first: they stay
masked, and the other bit that was set stays as well. -/
theorem interrupts_back_at_outermost_exit_inner :
    SectionStep.WellNested ([.enter, .enter, .leave] ++ [.leave]) ∧
      ∃ s, (SectionStep.runAll [.enter, .enter, .leave]).Returns
          ⟨{ values := fun _ => 0x82, pins := fun _ => 0 }, []⟩ () s ∧
        s.status = 0x02 := by
  have hnested : SectionStep.WellNested ([.enter, .enter, .leave] ++ [.leave]) := by decide
  obtain ⟨depth, s, hopen, hrun, hkept, -⟩ := interrupts_back_at_outermost_exit
    { values := fun _ => 0x82, pins := fun _ => 0 } _ _ hnested
  obtain rfl : 1 = depth := Option.some.inj hopen
  refine ⟨hnested, s, hrun, ?_⟩
  calc s.status
      = (0x80 ||| 0x7F) &&& s.status := UInt8.neg_one_and.symm
    _ = s.status &&& 0x80 ||| s.status &&& 0x7F := by
      rw [or_and, UInt8.and_comm 0x80, UInt8.and_comm 0x7F]
    _ = 0 ||| 0x82 &&& 0x7F := by rw [hkept.inside Nat.one_pos, hkept.others]
    _ = 0x02 := by decide

end CardTap.Device
