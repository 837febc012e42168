import MxGpu.AtomRun

/-!
An operation of the interpreter stays inside of the frames of its table, and leaves the frames of
the tables around it alone.
-/

namespace MxGpu.Atom

open Checked

/-- The frames of a table: its parameters lie in the parameters of the outermost call, and its work
space is there and has the size the table declares. -/
structure FrameOk (size : Nat) (f : Frame) : Prop where
  params : f.table.psSize = 0 ∨ f.table.ps + f.table.psSize ≤ size
  work : f.ws.elim 0 (fun work => work.cells.length) = f.table.wsSize

structure Framed (f : Frame) (size : Nat) (e : Exec) : Prop where
  table : e.frame.table = f.table
  pptr : e.frame.pptr = f.pptr
  id : e.frame.ws.map Work.id = f.ws.map Work.id
  ok : FrameOk size e.frame
  size : e.params.length = size

/-- The one stop that is neither an access outside of a frame nor a text too long. -/
def Endless (stop : Stop) : Prop := stop = .endless

section Operands

variable {env : Env} {f : Frame} {size : Nat}

abbrev Stays {α : Type} (f : Frame) (size : Nat) (prog : M α) (post : α → Prop) : Prop :=
  Holds Endless (Framed f size) prog post

theorem stays_fail {α : Type} {post : α → Prop} :
    Stays f size (fail .endless : M α) post := Holds.stop rfl

theorem stays_setContext (g : Context → Context) :
    Stays f size (setContext g) fun _ => True := by
  apply Holds.step
  intro e framed
  exact ⟨⟨framed.table, framed.pptr, framed.id, framed.ok, framed.size⟩, trivial⟩

theorem stays_setAbort : Stays f size setAbort fun _ => True := by
  apply Holds.step
  intro e framed
  exact ⟨⟨framed.table, framed.pptr, framed.id, ⟨framed.ok.params, framed.ok.work⟩,
    framed.size⟩, trivial⟩

theorem stays_setLastJump (target : Nat) (time : BitVec 64) :
    Stays f size (setLastJump target time) fun _ => True := by
  apply Holds.step
  intro e framed
  exact ⟨⟨framed.table, framed.pptr, framed.id, ⟨framed.ok.params, framed.ok.work⟩,
    framed.size⟩, trivial⟩

theorem stays_cardWrite (access : CardAccess) :
    Stays f size (cardWrite access) fun _ => True := by
  apply Holds.step
  intro e framed
  exact ⟨⟨framed.table, framed.pptr, framed.id, framed.ok, framed.size⟩, trivial⟩

theorem stays_cardRead (access : CardAccess) :
    Stays f size (cardRead env access) fun _ => True := by
  apply Holds.step
  intro e framed
  exact ⟨⟨framed.table, framed.pptr, framed.id, framed.ok, framed.size⟩, trivial⟩

theorem stays_timeStamp : Stays f size (timeStamp env) fun _ => True := by
  apply Holds.step
  intro e framed
  exact ⟨⟨framed.table, framed.pptr, framed.id, framed.ok, framed.size⟩, trivial⟩

theorem Framed.param_lt {e : Exec} (framed : Framed f size e) {idx : Nat}
    (inside : idx < f.table.psSize) :
    idx < e.frame.table.psSize ∧ e.frame.table.ps + idx < e.params.length := by
  have space := framed.ok.params
  rw [framed.size]
  rw [framed.table] at space ⊢
  omega

theorem stays_paramRead {idx : Nat} (inside : idx < f.table.psSize) :
    Stays f size (paramRead idx) fun _ => True := by
  intro e framed
  obtain ⟨below, there⟩ := framed.param_lt inside
  simp only [paramRead, if_pos below, List.getElem?_eq_getElem there]
  exact ⟨framed, trivial⟩

theorem stays_paramWrite {idx : Nat} (inside : idx < f.table.psSize) (val : Word) :
    Stays f size (paramWrite idx val) fun _ => True := by
  intro e framed
  simp only [paramWrite, if_pos (framed.param_lt inside)]
  exact ⟨⟨framed.table, framed.pptr, framed.id, framed.ok, by
    rw [List.length_set]
    exact framed.size⟩, trivial⟩

theorem Framed.work_lt {e : Exec} (framed : Framed f size e) {idx : Nat}
    (inside : idx < f.table.wsSize) :
    ∃ work, e.frame.ws = some work ∧ idx < work.cells.length := by
  have fits := framed.ok.work
  rw [framed.table] at fits
  cases space : e.frame.ws with
  | none =>
    rw [space] at fits
    change 0 = f.table.wsSize at fits
    omega
  | some work =>
    rw [space] at fits
    change work.cells.length = f.table.wsSize at fits
    exact ⟨work, rfl, by omega⟩

theorem stays_workRead {idx : Nat} (inside : idx < f.table.wsSize) :
    Stays f size (workRead idx) fun _ => True := by
  intro e framed
  obtain ⟨work, space, below⟩ := framed.work_lt inside
  simp only [workRead, space, List.getElem?_eq_getElem below]
  exact ⟨framed, trivial⟩

theorem stays_workWrite {idx : Nat} (inside : idx < f.table.wsSize) (val : Word) :
    Stays f size (workWrite idx val) fun _ => True := by
  intro e framed
  obtain ⟨work, space, below⟩ := framed.work_lt inside
  have fits := framed.ok.work
  have id := framed.id
  rw [space] at fits id
  simp only [workWrite, space, if_pos below]
  refine ⟨⟨framed.table, framed.pptr, id, ⟨framed.ok.params, ?_⟩, framed.size⟩, trivial⟩
  rw [← fits]
  exact List.length_set

theorem stays_iio (index data : Word) (fuel base : Nat) (temp : Word) :
    Stays f size (atomIioExecute env index data fuel base temp) fun _ => True := by
  induction fuel generalizing base temp with
  | zero => exact stays_fail
  | succ fuel ih =>
    unfold atomIioExecute
    split
    · exact ih _ _
    · exact (stays_cardRead _).bind fun _ _ => ih _ _
    · exact (stays_cardWrite _).bind fun _ _ => ih _ _
    · exact ih _ _
    · exact ih _ _
    · exact ih _ _
    · exact Holds.read fun _ _ => ih _ _
    · exact ih _ _
    · exact Holds.pure trivial
    · exact Holds.pure trivial

theorem stays_regRead (idx : Word) : Stays f size (atomRegRead env idx) fun _ => True := by
  apply Holds.read
  intro e framed
  split
  · exact (stays_cardRead _).bind fun _ _ => Holds.pure trivial
  · exact Holds.pure trivial
  · exact Holds.pure trivial
  · apply Holds.ite
    · exact fun _ => Holds.pure trivial
    · intro _
      apply Holds.ite
      · exact fun _ => Holds.pure trivial
      · exact fun _ => (stays_iio _ _ _ _ _).bind fun _ _ => Holds.pure trivial

theorem stays_getPs (idx : Nat) : Stays f size (atomGetPs idx) fun _ => True := by
  apply Holds.read
  intro e framed
  apply Holds.ite
  · exact fun _ => stays_setAbort.bind fun _ _ => Holds.pure trivial
  · intro inside
    rw [framed.table] at inside
    exact stays_paramRead (Nat.lt_of_not_le inside)

theorem stays_getWs (idx : Nat) : Stays f size (atomGetWs env idx) fun _ => True := by
  apply Holds.read
  intro e framed
  split
  · exact Holds.pure trivial
  · apply Holds.ite
    · exact fun _ => stays_setAbort.bind fun _ _ => Holds.pure trivial
    · intro inside
      rw [framed.table] at inside
      exact stays_workRead (Nat.lt_of_not_le inside)

theorem direct_short (env : Env) (align : Align) (ptr : Nat) :
    (atomGetSrcDirect env align ptr).ptr ≤ ptr + 4 := by
  cases align <;> simp [atomGetSrcDirect]

theorem stays_getSrcInt (arg : Arg) (align : Align) (ptr : Nat) :
    Stays f size (atomGetSrcInt env arg align ptr) fun src => src.ptr ≤ ptr + 4 := by
  cases arg with
  | reg =>
    apply Holds.read
    intro e framed
    refine (stays_regRead _).bind fun val _ => Holds.pure ?_
    cases val with
    | none => exact Nat.add_le_add_left (by decide) ptr
    | some val => exact Nat.add_le_add_left (by decide) ptr
  | ps =>
    exact (stays_getPs _).bind fun _ _ => Holds.pure (Nat.add_le_add_left (by decide) ptr)
  | ws =>
    exact (stays_getWs _).bind fun _ _ => Holds.pure (Nat.add_le_add_left (by decide) ptr)
  | id => exact Holds.read fun _ _ => Holds.pure (Nat.add_le_add_left (by decide) ptr)
  | fb =>
    apply Holds.read
    intro e framed
    exact (stays_cardRead _).bind fun _ _ => Holds.pure (Nat.add_le_add_left (by decide) ptr)
  | imm => exact Holds.pure (direct_short env align ptr)
  | pll =>
    exact (stays_cardRead _).bind fun _ _ => Holds.pure (Nat.add_le_add_left (by decide) ptr)
  | mc =>
    exact (stays_cardRead _).bind fun _ _ => Holds.pure (Nat.add_le_add_left (by decide) ptr)

theorem skip_short (env : Env) (arg : Arg) (align : Align) (ptr : Nat) :
    atomSkipSrcInt env arg align ptr ≤ ptr + 4 := by
  cases arg with
  | imm => exact direct_short env align ptr
  | _ => exact Nat.add_le_add_left (by decide) ptr

theorem stays_regWrite (idx val : Word) :
    Stays f size (atomRegWrite env idx val) fun _ => True := by
  apply Holds.read
  intro e framed
  split
  · exact stays_cardWrite _
  · exact Holds.pure trivial
  · exact Holds.pure trivial
  · apply Holds.ite
    · exact fun _ => Holds.pure trivial
    · intro _
      apply Holds.ite
      · exact fun _ => Holds.pure trivial
      · exact fun _ => (stays_iio _ _ _ _ _).bind fun _ _ => Holds.pure trivial

theorem stays_putPs (idx : Nat) (val : Word) :
    Stays f size (atomPutPs idx val) fun _ => True := by
  apply Holds.read
  intro e framed
  apply Holds.ite
  · exact fun _ => stays_setAbort
  · intro inside
    rw [framed.table] at inside
    exact stays_paramWrite (Nat.lt_of_not_le inside) val

theorem stays_putWs (idx : Nat) (val : Word) :
    Stays f size (atomPutWs idx val) fun _ => True := by
  unfold atomPutWs
  split
  · exact stays_setContext _
  · exact stays_setContext _
  · exact stays_setContext _
  · exact stays_setContext _
  · exact Holds.pure trivial
  · exact Holds.pure trivial
  · exact stays_setContext _
  · exact stays_setContext _
  · exact stays_setContext _
  · apply Holds.read
    intro e framed
    apply Holds.ite
    · exact fun _ => stays_setAbort
    · intro inside
      rw [framed.table] at inside
      exact stays_workWrite (Nat.lt_of_not_le inside) val

theorem stays_putDst (arg : Arg) (align : Align) (ptr : Nat) (val saved : Word) :
    Stays f size (atomPutDst env arg align ptr val saved) fun _ => True := by
  cases arg with
  | reg => exact Holds.read fun _ _ => stays_regWrite _ _
  | ps => exact stays_putPs _ _
  | ws => exact stays_putWs _ _
  | fb => exact Holds.read fun _ _ => stays_cardWrite _
  | pll => exact stays_cardWrite _
  | mc => exact stays_cardWrite _
  | id => exact Holds.pure trivial
  | imm => exact Holds.pure trivial

end Operands

section Operations

variable {env : Env} {f : Frame} {size : Nat}

/-- An operation stays inside of the frames, and those that do not jump are short. -/
abbrev Goes (f : Frame) (size ptr : Nat) (prog : M Nat) : Prop :=
  Stays f size prog fun next => next ≤ ptr + 13

theorem goes_binary (g : Word → Word → Word) (arg : Arg) (ptr : Nat) :
    Goes f size ptr (atomOpBinary env g arg ptr) := by
  refine (stays_getSrcInt _ _ _).bind fun dst dstShort => ?_
  refine (stays_getSrcInt _ _ _).bind fun src srcShort => ?_
  exact (stays_putDst _ _ _ _ _).bind fun _ _ => Holds.pure (by omega)

theorem goes_pair (g : Word → Word → Context → Context) (arg : Arg) (ptr : Nat) :
    Goes f size ptr (atomOpPair env g arg ptr) := by
  refine (stays_getSrcInt _ _ _).bind fun dst dstShort => ?_
  refine (stays_getSrcInt _ _ _).bind fun src srcShort => ?_
  exact (stays_setContext _).bind fun _ _ => Holds.pure (by omega)

theorem goes_clear (arg : Arg) (ptr : Nat) : Goes f size ptr (atomOpClear env arg ptr) := by
  refine (stays_getSrcInt _ _ _).bind fun dst dstShort => ?_
  exact (stays_putDst _ _ _ _ _).bind fun _ _ => Holds.pure (by omega)

theorem goes_mask (arg : Arg) (ptr : Nat) : Goes f size ptr (atomOpMask env arg ptr) := by
  refine (stays_getSrcInt _ _ _).bind fun dst dstShort => ?_
  have maskShort := direct_short env (Align.ofAttr (env.u8 ptr)) dst.ptr
  refine (stays_getSrcInt _ _ _).bind fun src srcShort => ?_
  exact (stays_putDst _ _ _ _ _).bind fun _ _ => Holds.pure (by omega)

theorem stays_moveDst (arg : Arg) (attr ptr : Nat) :
    Stays f size (atomMoveDst env arg attr ptr) fun dst => dst.ptr ≤ ptr + 4 := by
  apply Holds.ite
  · exact fun _ => stays_getSrcInt _ _ _
  · exact fun _ => Holds.pure (skip_short env arg (dstAlign attr) ptr)

theorem goes_move (arg : Arg) (ptr : Nat) : Goes f size ptr (atomOpMove env arg ptr) := by
  refine (stays_moveDst _ _ _).bind fun dst dstShort => ?_
  refine (stays_getSrcInt _ _ _).bind fun src srcShort => ?_
  exact (stays_putDst _ _ _ _ _).bind fun _ _ => Holds.pure (by omega)

theorem goes_shift (g : Word → Nat → Word) (arg : Arg) (ptr : Nat) :
    Goes f size ptr (atomOpShift env g arg ptr) := by
  refine (stays_getSrcInt _ _ _).bind fun dst dstShort => ?_
  have shiftShort := direct_short env .byte0 dst.ptr
  exact (stays_putDst _ _ _ _ _).bind fun _ _ => Holds.pure (by omega)

theorem goes_shiftWhole (g : Word → Nat → Word) (arg : Arg) (ptr : Nat) :
    Goes f size ptr (atomOpShiftWhole env g arg ptr) := by
  refine (stays_getSrcInt _ _ _).bind fun dst dstShort => ?_
  refine (stays_getSrcInt _ _ _).bind fun src srcShort => ?_
  exact (stays_putDst _ _ _ _ _).bind fun _ _ => Holds.pure (by omega)

theorem stays_noteJump (target : Nat) :
    Stays f size (atomNoteJump env target) fun _ => True := by
  apply Holds.read
  intro e framed
  refine stays_timeStamp.bind fun currentTs _ => ?_
  apply Holds.ite
  · intro _
    apply Holds.ite
    · intro _
      apply Holds.ite
      · exact fun _ => stays_setAbort
      · exact fun _ => Holds.pure trivial
    · exact fun _ => stays_timeStamp.bind fun _ _ => stays_setLastJump _ _
  · exact fun _ => stays_setLastJump _ _

theorem stays_jump (cond : Cond) (ptr : Nat) :
    Stays f size (atomOpJump env cond ptr) fun _ => True := by
  apply Holds.read
  intro e framed
  apply Holds.ite
  · exact fun _ => (stays_noteJump _).bind fun _ _ => Holds.pure trivial
  · exact fun _ => Holds.pure trivial

theorem stays_switchLoop (attr : Nat) (src : Word) (fuel ptr : Nat) :
    Stays f size (switchLoop env attr src fuel ptr) fun _ => True := by
  induction fuel generalizing ptr with
  | zero => exact stays_fail
  | succ fuel ih =>
    unfold switchLoop
    apply Holds.ite
    · exact fun _ => Holds.pure trivial
    · intro _
      apply Holds.ite
      · intro _
        apply Holds.read
        intro e framed
        apply Holds.ite
        · exact fun _ => Holds.pure trivial
        · exact fun _ => ih _
      · exact fun _ => Holds.pure trivial

theorem stays_switch (ptr : Nat) : Stays f size (atomOpSwitch env ptr) fun _ => True :=
  (stays_getSrcInt _ _ _).bind fun _ _ => stays_switchLoop _ _ _ _

theorem goes_setdatablock (ptr : Nat) : Goes f size ptr (atomOpSetdatablock env ptr) := by
  apply Holds.read
  intro e framed
  exact (stays_setContext _).bind fun _ _ => Holds.pure (Nat.add_le_add_left (by decide) ptr)

theorem goes_setfbbase (ptr : Nat) : Goes f size ptr (atomOpSetfbbase env ptr) := by
  refine (stays_getSrcInt _ _ _).bind fun src srcShort => ?_
  exact (stays_setContext _).bind fun _ _ => Holds.pure (by omega)

theorem goes_setport (port : Port) (ptr : Nat) :
    Goes f size ptr (atomOpSetport env port ptr) := by
  cases port with
  | ati =>
    exact (stays_setContext _).bind fun _ _ => Holds.pure (Nat.add_le_add_left (by decide) ptr)
  | pci =>
    exact (stays_setContext _).bind fun _ _ => Holds.pure (Nat.add_le_add_left (by decide) ptr)
  | sysio =>
    exact (stays_setContext _).bind fun _ _ => Holds.pure (Nat.add_le_add_left (by decide) ptr)

theorem goes_setregblock (ptr : Nat) : Goes f size ptr (atomOpSetregblock env ptr) :=
  (stays_setContext _).bind fun _ _ => Holds.pure (Nat.add_le_add_left (by decide) ptr)

def Opcode.short : Opcode → Bool
  | .jump _ | .switch | .processds => false
  | _ => true

theorem stays_func (opcode : Opcode) (ptr : Nat) :
    Stays f size (opcode.func env ptr) fun next => opcode.short = true → next ≤ ptr + 13 := by
  have near : ∀ k ≤ 13, Stays f size (pure (ptr + k) : M Nat)
      fun next => opcode.short = true → next ≤ ptr + 13 :=
    fun k small => Holds.pure fun _ => Nat.add_le_add_left small ptr
  have goes : ∀ {prog : M Nat}, Goes f size ptr prog →
      Stays f size prog fun next => opcode.short = true → next ≤ ptr + 13 :=
    fun holds => holds.weaken fun _ below _ => below
  have long : ∀ {prog : M Nat}, opcode.short = false → Stays f size prog (fun _ => True) →
      Stays f size prog fun next => opcode.short = true → next ≤ ptr + 13 :=
    fun isLong holds => holds.weaken fun _ _ isShort => absurd (isLong.symm.trans isShort) (by decide)
  cases opcode with
  | move arg => exact goes (goes_move arg ptr)
  | bitAnd arg => exact goes (goes_binary _ arg ptr)
  | bitOr arg => exact goes (goes_binary _ arg ptr)
  | shiftLeft arg => exact goes (goes_shift _ arg ptr)
  | shiftRight arg => exact goes (goes_shift _ arg ptr)
  | mul arg =>
    unfold Opcode.func atomOpMul
    exact goes (goes_pair _ arg ptr)
  | div arg =>
    unfold Opcode.func atomOpDiv
    exact goes (goes_pair _ arg ptr)
  | add arg => exact goes (goes_binary _ arg ptr)
  | sub arg => exact goes (goes_binary _ arg ptr)
  | setport port => exact goes (goes_setport port ptr)
  | setregblock => exact goes (goes_setregblock ptr)
  | setfbbase => exact goes (goes_setfbbase ptr)
  | compare arg =>
    unfold Opcode.func atomOpCompare
    exact goes (goes_pair _ arg ptr)
  | switch => exact long rfl (stays_switch ptr)
  | jump cond => exact long rfl (stays_jump cond ptr)
  | test arg =>
    unfold Opcode.func atomOpTest
    exact goes (goes_pair _ arg ptr)
  | clear arg => exact goes (goes_clear arg ptr)
  | mask arg => exact goes (goes_mask arg ptr)
  | setdatablock => exact goes (goes_setdatablock ptr)
  | xor arg => exact goes (goes_binary _ arg ptr)
  | shl arg => exact goes (goes_shiftWhole _ arg ptr)
  | shr arg => exact goes (goes_shiftWhole _ arg ptr)
  | mul32 arg =>
    unfold Opcode.func atomOpMul32
    exact goes (goes_pair _ arg ptr)
  | div32 arg =>
    unfold Opcode.func atomOpDiv32
    exact goes (goes_pair _ arg ptr)
  | delay => exact near 1 (by decide)
  | postcard => exact near 1 (by decide)
  | debug => exact near 1 (by decide)
  | processds => exact long rfl (Holds.pure trivial)
  | calltable => exact near 0 (by decide)
  | unimplemented => exact near 0 (by decide)
  | nop => exact near 0 (by decide)
  | eot => exact near 0 (by decide)
  | beep => exact near 0 (by decide)

end Operations

end MxGpu.Atom
