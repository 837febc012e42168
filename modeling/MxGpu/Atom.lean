import Mathlib.Data.BitVec
import MxGpu.Checked

/-!
The operands of the BIOS interpreter: what an operation of a command table reads and writes, with
the parameter space and the work space as memory that has an end.
-/

namespace MxGpu.Atom

open Checked

abbrev Word := BitVec 32

/-- `ATOM_ARG_*`. -/
inductive Arg
  | reg
  | ps
  | ws
  | fb
  | id
  | imm
  | pll
  | mc
  deriving DecidableEq, Repr

/-- `ATOM_SRC_*`. -/
inductive Align
  | dword
  | word0
  | word8
  | word16
  | byte0
  | byte8
  | byte16
  | byte24
  deriving DecidableEq, Repr

/-- `attr & 7`. -/
def Arg.ofAttr (attr : Nat) : Arg :=
  match attr % 8 with
  | 0 => .reg
  | 1 => .ps
  | 2 => .ws
  | 3 => .fb
  | 4 => .id
  | 5 => .imm
  | 6 => .pll
  | _ => .mc

/-- `(attr >> 3) & 7`. -/
def Align.ofAttr (attr : Nat) : Align :=
  match attr / 8 % 8 with
  | 0 => .dword
  | 1 => .word0
  | 2 => .word8
  | 3 => .word16
  | 4 => .byte0
  | 5 => .byte8
  | 6 => .byte16
  | _ => .byte24

/-- `atom_arg_mask`. -/
def Align.mask : Align → Word
  | .dword => 0xffffffff#32
  | .word0 => 0xffff#32
  | .word8 => 0xffff00#32
  | .word16 => 0xffff0000#32
  | .byte0 => 0xff#32
  | .byte8 => 0xff00#32
  | .byte16 => 0xff0000#32
  | .byte24 => 0xff000000#32

/-- `atom_arg_shift`. -/
def Align.shift : Align → Nat
  | .dword | .word0 | .byte0 => 0
  | .word8 | .byte8 => 8
  | .word16 | .byte16 => 16
  | .byte24 => 24

def dstToSrc : Align → Nat → Align
  | .dword, _ => .dword
  | .word0, 0 | .word8, 0 | .word16, 0 => .word0
  | .word0, 1 | .word8, 1 | .word16, 1 => .word8
  | .word0, 2 | .word8, 2 | .word16, 2 => .word16
  | .word0, _ | .word8, _ | .word16, _ => .dword
  | _, 0 => .byte0
  | _, 1 => .byte8
  | _, 2 => .byte16
  | _, _ => .byte24

def defDst : Align → Nat
  | .dword | .word0 | .byte0 => 0
  | .word8 | .byte8 => 1
  | .word16 | .byte16 => 2
  | .byte24 => 3

/-- The alignment of the destination that `attr` names. -/
def dstAlign (attr : Nat) : Align := dstToSrc (Align.ofAttr attr) (attr / 64 % 4)

/-- The alignment of the destination when only bits 3 to 5 of `attr` are used. -/
def defAlign (attr : Nat) : Align := dstToSrc (Align.ofAttr attr) (defDst (Align.ofAttr attr))

/-- What the interpreter finds around it: the image, and what the card, the clock and the allocator
answer to the requests made one after another. -/
structure Env where
  bios : Nat → BitVec 8
  read : Nat → Word
  stamp : Nat → BitVec 64
  alloc : Nat → Bool
  /-- What a local holds that no path has set. -/
  uninit : Word
  /-- A bound on the turns of a loop over the image. -/
  fuel : Nat
  /-- What a shift of a word by its width or more leaves, which C does not say. -/
  wideShl : Word → Nat → Word
  wideShr : Word → Nat → Word

/-- `get_u8`. -/
def Env.u8 (env : Env) (ptr : Nat) : Nat := (env.bios ptr).toNat

/-- `get_u16`. -/
def Env.u16 (env : Env) (ptr : Nat) : Nat := env.u8 ptr + 2 ^ 8 * env.u8 (ptr + 1)

/-- `get_u32`. -/
def Env.u32 (env : Env) (ptr : Nat) : Nat := env.u16 ptr + 2 ^ 16 * env.u16 (ptr + 2)

/-- `val << count` and `val >> count`. -/
def Env.shl (env : Env) (val : Word) (count : Nat) : Word :=
  if count < 32 then val <<< count else env.wideShl val count

def Env.shr (env : Env) (val : Word) (count : Nat) : Word :=
  if count < 32 then val >>> count else env.wideShr val count

inductive CardAccess
  | regRead (idx : Word)
  | regWrite (idx val : Word)
  | ioregRead (idx : Nat)
  | ioregWrite (idx : Nat) (val : Word)
  | fbRead (addr : Word)
  | fbWrite (addr val : Word)
  | pllRead (idx : Nat)
  | pllWrite (idx : Nat) (val : Word)
  | mcRead (idx : Nat)
  | mcWrite (idx : Nat) (val : Word)
  deriving DecidableEq, Repr

structure Context where
  cmdTable : Nat
  dataTable : Nat
  iio : Nat → Nat
  dataBlock : BitVec 16
  fbBase : Word
  divmul : Word × Word
  ioAttr : BitVec 16
  regBlock : BitVec 16
  shift : BitVec 8
  csEqual : Bool
  csAbove : Bool
  ioMode : Nat

/-- What does not change while a table runs. `ps` is the place of the table's parameters in the
parameters of the outermost call. -/
structure Table where
  index : Nat
  start : Nat
  psShift : Nat
  ps : Nat
  psSize : Nat
  wsSize : Nat
  startTime : BitVec 64

structure Work where
  id : Nat
  cells : List Word

/-- `atom_exec_context` with the locals of `amdgv_atom_execute_table_locked`. -/
structure Frame where
  table : Table
  ws : Option Work
  abort : Bool
  lastJump : Nat
  lastJumpTs : BitVec 64
  ptr : Nat
  pptr : Nat

structure Exec where
  context : Context
  params : List Word
  frame : Frame
  reads : Nat
  stamps : Nat
  card : List CardAccess

/-- Why the interpreter goes no further: an access outside of a frame, a text longer than its
buffer, or a loop that does not end. -/
inductive Stop
  | paramOutside
  | workOutside
  | overrun
  | endless
  deriving DecidableEq, Repr

abbrev M := Prog Exec Stop

def fail {α : Type} (stop : Stop) : M α := fun _ => .error stop

def setContext (f : Context → Context) : M Unit := fun e =>
  .ok ((), { e with context := f e.context })

/-- `ctx->abort = true`. -/
def setAbort : M Unit := fun e => .ok ((), { e with frame := { e.frame with abort := true } })

/-- `ctx->ps[idx]`. -/
def paramRead (idx : Nat) : M Word := fun e =>
  if idx < e.frame.table.psSize then
    match e.params[e.frame.table.ps + idx]? with
    | some val => .ok (val, e)
    | none => .error .paramOutside
  else .error .paramOutside

/-- `ctx->ps[idx] = val`. -/
def paramWrite (idx : Nat) (val : Word) : M Unit := fun e =>
  if idx < e.frame.table.psSize ∧ e.frame.table.ps + idx < e.params.length then
    .ok ((), { e with params := e.params.set (e.frame.table.ps + idx) val })
  else .error .paramOutside

/-- `ctx->ws[idx]`. -/
def workRead (idx : Nat) : M Word := fun e =>
  match e.frame.ws with
  | none => .error .workOutside
  | some work =>
    match work.cells[idx]? with
    | some val => .ok (val, e)
    | none => .error .workOutside

/-- `ctx->ws[idx] = val`. -/
def workWrite (idx : Nat) (val : Word) : M Unit := fun e =>
  match e.frame.ws with
  | none => .error .workOutside
  | some work =>
    if idx < work.cells.length then
      let ws := some { work with cells := work.cells.set idx val }
      .ok ((), { e with frame := { e.frame with ws } })
    else .error .workOutside

def cardWrite (access : CardAccess) : M Unit := fun e =>
  .ok ((), { e with card := e.card ++ [access] })

section Operands

variable (env : Env)

def cardRead (access : CardAccess) : M Word := fun e =>
  .ok (env.read e.reads, { e with reads := e.reads + 1, card := e.card ++ [access] })

def timeStamp : M (BitVec 64) := fun e =>
  .ok (env.stamp e.stamps, { e with stamps := e.stamps + 1 })

/-- `0xFFFFFFFF >> (32 - CU8(ptr))`. -/
def iioField (ptr : Nat) : Word := 0xffffffff#32 >>> (32 - env.u8 ptr)

/-- The bits of `val` from `from` on that an IIO move puts into `temp`. -/
def iioMove (base : Nat) (temp val : Word) : Word :=
  (temp &&& ~~~(iioField env (base + 1) <<< env.u8 (base + 3))) |||
    (((val >>> env.u8 (base + 2)) &&& iioField env (base + 1)) <<< env.u8 (base + 3))

/-- `atom_iio_execute` with its loop at `base`. -/
def atomIioExecute (index data : Word) : Nat → Nat → Word → M Word
  | 0, _, _ => fail .endless
  | fuel + 1, base, temp =>
    match env.u8 base with
    | 0 => atomIioExecute index data fuel (base + 1) temp
    | 2 => do
      let temp ← cardRead env (.ioregRead (env.u16 (base + 1)))
      atomIioExecute index data fuel (base + 3) temp
    | 3 => do
      cardWrite (.ioregWrite (env.u16 (base + 1)) temp)
      atomIioExecute index data fuel (base + 3) temp
    | 4 =>
      atomIioExecute index data fuel (base + 3)
        (temp &&& ~~~(iioField env (base + 1) <<< env.u8 (base + 2)))
    | 5 =>
      atomIioExecute index data fuel (base + 3)
        (temp ||| iioField env (base + 1) <<< env.u8 (base + 2))
    | 6 => atomIioExecute index data fuel (base + 4) (iioMove env base temp index)
    | 7 => do
      let e ← get
      atomIioExecute index data fuel (base + 4)
        (iioMove env base temp (e.context.ioAttr.setWidth 32))
    | 8 => atomIioExecute index data fuel (base + 4) (iioMove env base temp data)
    | 9 => pure temp
    | _ => pure 0

def unset : Word := 0xcdcdcdcd#32

/-- The part of `atom_get_src_int` that reads a register; nothing where it returns at once. -/
def atomRegRead (idx : Word) : M (Option Word) := do
  let e ← get
  match e.context.ioMode with
  | 0 => do
    let val ← cardRead env (.regRead idx)
    pure (some val)
  | 1 => pure none
  | 2 => pure none
  | mode =>
    if mode &&& 0x80 = 0 then pure none
    else if e.context.iio (mode &&& 0x7f) = 0 then pure none
    else do
      let val ← atomIioExecute env idx 0 env.fuel (e.context.iio (mode &&& 0x7f)) unset
      pure (some val)

/-- The work-space indices that stand for fields of the context. -/
def Context.workField (c : Context) (idx : Nat) : Option Word :=
  match idx with
  | 0x40 => some c.divmul.1
  | 0x41 => some c.divmul.2
  | 0x42 => some (c.dataBlock.setWidth 32)
  | 0x43 => some (c.shift.setWidth 32)
  | 0x44 => some (env.shl 1#32 c.shift.toNat)
  | 0x45 => some (~~~(env.shl 1#32 c.shift.toNat))
  | 0x46 => some c.fbBase
  | 0x47 => some (c.ioAttr.setWidth 32)
  | 0x48 => some (c.regBlock.setWidth 32)
  | _ => none

/-- A source operand: its value, what was saved of the whole word, and the place behind it. -/
structure Src where
  val : Word
  saved : Option Word
  ptr : Nat

/-- `ATOM_ARG_PS` of `atom_get_src_int`. -/
def atomGetPs (idx : Nat) : M Word := do
  let e ← get
  if e.frame.table.psSize ≤ idx then do
    setAbort
    pure unset
  else paramRead idx

/-- `ATOM_ARG_WS` of `atom_get_src_int`. -/
def atomGetWs (idx : Nat) : M Word := do
  let e ← get
  match e.context.workField env idx with
  | some val => pure val
  | none =>
    if e.frame.table.wsSize ≤ idx then do
      setAbort
      pure unset
    else workRead idx

/-- The end of `atom_get_src_int`. -/
def aligned (align : Align) (val : Word) (ptr : Nat) : Src :=
  ⟨(val &&& align.mask) >>> align.shift, some val, ptr⟩

/-- The cases of `atom_get_src_int` and `atom_get_src_direct` that take a value from the code. -/
def atomGetSrcDirect (align : Align) (ptr : Nat) : Src :=
  match align with
  | .dword => ⟨BitVec.ofNat 32 (env.u32 ptr), none, ptr + 4⟩
  | .word0 | .word8 | .word16 => ⟨BitVec.ofNat 32 (env.u16 ptr), none, ptr + 2⟩
  | .byte0 | .byte8 | .byte16 | .byte24 => ⟨BitVec.ofNat 32 (env.u8 ptr), none, ptr + 1⟩

def atomGetSrcInt (arg : Arg) (align : Align) (ptr : Nat) : M Src :=
  match arg with
  | .reg => do
    let e ← get
    let idx := BitVec.ofNat 32 (env.u16 ptr) + e.context.regBlock.setWidth 32
    let val ← atomRegRead env idx
    pure (match val with
      | some val => aligned align val (ptr + 2)
      | none => ⟨0, none, ptr + 2⟩)
  | .ps => do
    let val ← atomGetPs (env.u8 ptr)
    pure (aligned align val (ptr + 1))
  | .ws => do
    let val ← atomGetWs env (env.u8 ptr)
    pure (aligned align val (ptr + 1))
  | .id => do
    let e ← get
    let val := BitVec.ofNat 32 (env.u32 (env.u16 ptr + e.context.dataBlock.toNat))
    pure (aligned align val (ptr + 2))
  | .fb => do
    let e ← get
    let val ← cardRead env (.fbRead (e.context.fbBase + BitVec.ofNat 32 (4 * env.u8 ptr)))
    pure (aligned align val (ptr + 1))
  | .imm => pure (atomGetSrcDirect env align ptr)
  | .pll => do
    let val ← cardRead env (.pllRead (env.u8 ptr))
    pure (aligned align val (ptr + 1))
  | .mc => do
    let val ← cardRead env (.mcRead (env.u8 ptr))
    pure (aligned align val (ptr + 1))

def atomSkipSrcInt (arg : Arg) (align : Align) (ptr : Nat) : Nat :=
  match arg with
  | .reg | .id => ptr + 2
  | .pll | .mc | .ps | .ws | .fb => ptr + 1
  | .imm => (atomGetSrcDirect env align ptr).ptr

def atomGetSrc (attr ptr : Nat) : M Src :=
  atomGetSrcInt env (Arg.ofAttr attr) (Align.ofAttr attr) ptr

/-- The part of `atom_put_dst` that writes a register. -/
def atomRegWrite (idx val : Word) : M Unit := do
  let e ← get
  match e.context.ioMode with
  | 0 => cardWrite (.regWrite idx (if idx = 0 then val <<< 2 else val))
  | 1 => pure ()
  | 2 => pure ()
  | mode =>
    if mode &&& 0x80 = 0 then pure ()
    else if e.context.iio (mode &&& 0xff) = 0 then pure ()
    else do
      let _ ← atomIioExecute env idx val env.fuel (e.context.iio (mode &&& 0xff)) unset
      pure ()

/-- `ATOM_ARG_PS` of `atom_put_dst`. -/
def atomPutPs (idx : Nat) (val : Word) : M Unit := do
  let e ← get
  if e.frame.table.psSize ≤ idx then setAbort else paramWrite idx val

/-- `ATOM_ARG_WS` of `atom_put_dst`. -/
def atomPutWs (idx : Nat) (val : Word) : M Unit :=
  match idx with
  | 0x40 => setContext fun c => { c with divmul := (val, c.divmul.2) }
  | 0x41 => setContext fun c => { c with divmul := (c.divmul.1, val) }
  | 0x42 => setContext fun c => { c with dataBlock := val.setWidth 16 }
  | 0x43 => setContext fun c => { c with shift := val.setWidth 8 }
  | 0x44 => pure ()
  | 0x45 => pure ()
  | 0x46 => setContext fun c => { c with fbBase := val }
  | 0x47 => setContext fun c => { c with ioAttr := val.setWidth 16 }
  | 0x48 => setContext fun c => { c with regBlock := val.setWidth 16 }
  | idx => do
    let e ← get
    if e.frame.table.wsSize ≤ idx then setAbort else workWrite idx val

/-- `atom_put_dst`, with the alignment it finds in `attr`. -/
def atomPutDst (arg : Arg) (align : Align) (ptr : Nat) (val saved : Word) : M Unit :=
  let val := ((val <<< align.shift) &&& align.mask) ||| (saved &&& ~~~align.mask)
  match arg with
  | .reg => do
    let e ← get
    atomRegWrite env (BitVec.ofNat 32 (env.u16 ptr) + e.context.regBlock.setWidth 32) val
  | .ps => atomPutPs (env.u8 ptr) val
  | .ws => atomPutWs (env.u8 ptr) val
  | .fb => do
    let e ← get
    cardWrite (.fbWrite (e.context.fbBase + BitVec.ofNat 32 (4 * env.u8 ptr)) val)
  | .pll => cardWrite (.pllWrite (env.u8 ptr) val)
  | .mc => cardWrite (.mcWrite (env.u8 ptr) val)
  | .id | .imm => pure ()

end Operands

end MxGpu.Atom
