import MxGpu.Atom

/-!
The operations of the BIOS interpreter, and the table of the opcodes.
-/

namespace MxGpu.Atom

open Checked

/-- `ATOM_COND_*`. -/
inductive Cond
  | above
  | aboveOrEqual
  | always
  | below
  | belowOrEqual
  | equal
  | notEqual
  deriving DecidableEq, Repr

/-- `ATOM_PORT_*`. -/
inductive Port
  | ati
  | pci
  | sysio
  deriving DecidableEq, Repr

/-- What `atom_op_jump` reads of the last comparison. -/
def Context.taken (c : Context) : Cond → Bool
  | .above => c.csAbove
  | .aboveOrEqual => c.csAbove || c.csEqual
  | .always => true
  | .below => !(c.csAbove || c.csEqual)
  | .belowOrEqual => !c.csAbove
  | .equal => c.csEqual
  | .notEqual => !c.csEqual

/-- `5000000`, in microseconds. -/
def atomExecuteTimeout : BitVec 64 := 5000000#64

section Operations

variable (env : Env)

/-- The operations that change their destination by a function of it and a source. -/
def atomOpBinary (f : Word → Word → Word) (arg : Arg) (ptr : Nat) : M Nat := do
  let attr := env.u8 ptr
  let dst ← atomGetSrcInt env arg (dstAlign attr) (ptr + 1)
  let src ← atomGetSrc env attr dst.ptr
  atomPutDst env arg (dstAlign attr) (ptr + 1) (f dst.val src.val) (dst.saved.getD env.uninit)
  pure src.ptr

def atomOpAdd : Arg → Nat → M Nat := atomOpBinary env fun dst src => dst + src

def atomOpAnd : Arg → Nat → M Nat := atomOpBinary env fun dst src => dst &&& src

def atomOpOr : Arg → Nat → M Nat := atomOpBinary env fun dst src => dst ||| src

def atomOpSub : Arg → Nat → M Nat := atomOpBinary env fun dst src => dst - src

def atomOpXor : Arg → Nat → M Nat := atomOpBinary env fun dst src => dst ^^^ src

def atomOpPair (f : Word → Word → Context → Context) (arg : Arg) (ptr : Nat) : M Nat := do
  let attr := env.u8 ptr
  let dst ← atomGetSrcInt env arg (dstAlign attr) (ptr + 1)
  let src ← atomGetSrc env attr dst.ptr
  setContext (f dst.val src.val)
  pure src.ptr

def atomOpCompare : Arg → Nat → M Nat := atomOpPair env fun dst src c =>
  { c with csEqual := dst == src, csAbove := src < dst }

def atomOpTest : Arg → Nat → M Nat := atomOpPair env fun dst src c =>
  { c with csEqual := (dst &&& src) == 0 }

def atomOpMul : Arg → Nat → M Nat := atomOpPair env fun dst src c =>
  { c with divmul := (dst * src, c.divmul.2) }

def atomOpMul32 : Arg → Nat → M Nat := atomOpPair env fun dst src c =>
  let val64 := dst.setWidth 64 * src.setWidth 64
  { c with divmul := (val64.setWidth 32, (val64 >>> 32).setWidth 32) }

def atomOpDiv : Arg → Nat → M Nat := atomOpPair env fun dst src c =>
  if src ≠ 0 then { c with divmul := (dst / src, dst % src) } else { c with divmul := (0, 0) }

def atomOpDiv32 : Arg → Nat → M Nat := atomOpPair env fun dst src c =>
  if src ≠ 0 then
    let val64 := (dst.setWidth 64 ||| c.divmul.2.setWidth 64 <<< 32) / src.setWidth 64
    { c with divmul := (val64.setWidth 32, (val64 >>> 32).setWidth 32) }
  else { c with divmul := (0, 0) }

def atomOpClear (arg : Arg) (ptr : Nat) : M Nat := do
  let attr := env.u8 ptr
  let dst ← atomGetSrcInt env arg (defAlign attr) (ptr + 1)
  atomPutDst env arg (defAlign attr) (ptr + 1) 0 (dst.saved.getD 0)
  pure dst.ptr

def atomOpMask (arg : Arg) (ptr : Nat) : M Nat := do
  let attr := env.u8 ptr
  let dst ← atomGetSrcInt env arg (dstAlign attr) (ptr + 1)
  let mask := atomGetSrcDirect env (Align.ofAttr attr) dst.ptr
  let src ← atomGetSrc env attr mask.ptr
  atomPutDst env arg (dstAlign attr) (ptr + 1) ((dst.val &&& mask.val) ||| src.val)
    (dst.saved.getD env.uninit)
  pure src.ptr

/-- The destination of `atom_op_move`, which is not read when the whole of it is written. -/
def atomMoveDst (arg : Arg) (attr ptr : Nat) : M Src :=
  if Align.ofAttr attr ≠ .dword then atomGetSrcInt env arg (dstAlign attr) ptr
  else pure ⟨0, some unset, atomSkipSrcInt env arg (dstAlign attr) ptr⟩

def atomOpMove (arg : Arg) (ptr : Nat) : M Nat := do
  let attr := env.u8 ptr
  let dst ← atomMoveDst env arg attr (ptr + 1)
  let src ← atomGetSrc env attr dst.ptr
  atomPutDst env arg (dstAlign attr) (ptr + 1) src.val (dst.saved.getD 0)
  pure src.ptr

def atomOpShift (f : Word → Nat → Word) (arg : Arg) (ptr : Nat) : M Nat := do
  let attr := env.u8 ptr
  let dst ← atomGetSrcInt env arg (defAlign attr) (ptr + 1)
  let shift := atomGetSrcDirect env .byte0 dst.ptr
  atomPutDst env arg (defAlign attr) (ptr + 1) (f dst.val shift.val.toNat)
    (dst.saved.getD env.uninit)
  pure shift.ptr

def atomOpShiftLeft : Arg → Nat → M Nat := atomOpShift env env.shl

def atomOpShiftRight : Arg → Nat → M Nat := atomOpShift env env.shr

def atomOpShiftWhole (f : Word → Nat → Word) (arg : Arg) (ptr : Nat) : M Nat := do
  let attr := env.u8 ptr
  let align := dstAlign attr
  let dst ← atomGetSrcInt env arg align (ptr + 1)
  let shift ← atomGetSrc env attr dst.ptr
  let whole := f (dst.saved.getD 0) (shift.val.setWidth 8).toNat
  atomPutDst env arg align (ptr + 1) ((whole &&& align.mask) >>> align.shift) (dst.saved.getD 0)
  pure shift.ptr

def atomOpShl : Arg → Nat → M Nat := atomOpShiftWhole env env.shl

def atomOpShr : Arg → Nat → M Nat := atomOpShiftWhole env env.shr

/-- The two fields `atom_op_jump` keeps of the last jump. -/
def setLastJump (target : Nat) (time : BitVec 64) : M Unit := fun e =>
  .ok ((), { e with frame := { e.frame with lastJump := target, lastJumpTs := time } })

/-- What `atom_op_jump` does about a jump to the place of the last one. -/
def atomSameJump (target : Nat) (lastJumpTs currentTs : BitVec 64) : M Unit :=
  if lastJumpTs < currentTs then
    if atomExecuteTimeout < currentTs - lastJumpTs then setAbort else pure ()
  else do
    let time ← timeStamp env
    setLastJump target time

/-- What `atom_op_jump` keeps of a jump that is taken. -/
def atomNoteJump (target : Nat) : M Unit := do
  let e ← get
  let currentTs ← timeStamp env
  if e.frame.lastJump = target then atomSameJump env target e.frame.lastJumpTs currentTs
  else setLastJump target currentTs

def atomOpJump (cond : Cond) (ptr : Nat) : M Nat := do
  let e ← get
  if e.context.taken cond then do
    atomNoteJump env (e.frame.table.start + env.u16 ptr)
    pure (e.frame.table.start + env.u16 ptr)
  else pure (ptr + 2)

/-- The loop of `atom_op_switch`. -/
def switchLoop (attr : Nat) (src : Word) : Nat → Nat → M Nat
  | 0, _ => fail .endless
  | fuel + 1, ptr =>
    if env.u16 ptr = 0x5a5a then pure (ptr + 2)
    else if env.u8 ptr = 0x63 then do
      let e ← get
      let val := atomGetSrcDirect env (Align.ofAttr attr) (ptr + 1)
      if val.val = src then pure (e.frame.table.start + env.u16 val.ptr)
      else switchLoop attr src fuel (val.ptr + 2)
    else pure ptr

def atomOpSwitch (ptr : Nat) : M Nat := do
  let attr := env.u8 ptr
  let src ← atomGetSrc env attr (ptr + 1)
  switchLoop env attr src.val env.fuel src.ptr

def atomOpSetdatablock (ptr : Nat) : M Nat := do
  let e ← get
  let block :=
    match env.u8 ptr with
    | 0 => 0
    | 255 => e.frame.table.start
    | idx => env.u16 (e.context.dataTable + 4 + 2 * idx)
  setContext fun c => { c with dataBlock := BitVec.ofNat 16 block }
  pure (ptr + 1)

def atomOpSetfbbase (ptr : Nat) : M Nat := do
  let src ← atomGetSrc env (env.u8 ptr) (ptr + 1)
  setContext fun c => { c with fbBase := src.val }
  pure src.ptr

def atomOpSetport (port : Port) (ptr : Nat) : M Nat :=
  match port with
  | .ati => do
    setContext fun c =>
      { c with ioMode := if env.u16 ptr = 0 then 0 else 0x80 ||| env.u16 ptr }
    pure (ptr + 2)
  | .pci => do
    setContext fun c => { c with ioMode := 1 }
    pure (ptr + 1)
  | .sysio => do
    setContext fun c => { c with ioMode := 2 }
    pure (ptr + 1)

def atomOpSetregblock (ptr : Nat) : M Nat := do
  setContext fun c => { c with regBlock := BitVec.ofNat 16 (env.u16 ptr) }
  pure (ptr + 2)

end Operations

/-- The entries of `opcode_table`. -/
inductive Opcode
  | move (arg : Arg)
  | bitAnd (arg : Arg)
  | bitOr (arg : Arg)
  | shiftLeft (arg : Arg)
  | shiftRight (arg : Arg)
  | mul (arg : Arg)
  | div (arg : Arg)
  | add (arg : Arg)
  | sub (arg : Arg)
  | setport (port : Port)
  | setregblock
  | setfbbase
  | compare (arg : Arg)
  | switch
  | jump (cond : Cond)
  | test (arg : Arg)
  | delay
  | calltable
  | unimplemented
  | clear (arg : Arg)
  | nop
  | eot
  | mask (arg : Arg)
  | postcard
  | beep
  | setdatablock
  | xor (arg : Arg)
  | shl (arg : Arg)
  | shr (arg : Arg)
  | debug
  | processds
  | mul32 (arg : Arg)
  | div32 (arg : Arg)
  deriving DecidableEq, Repr

def Opcode.each (op : Arg → Opcode) : List Opcode :=
  [op .reg, op .ps, op .ws, op .fb, op .pll, op .mc]

/-- `opcode_table` from its entry 1 on. -/
def opcodes : List Opcode :=
  Opcode.each .move ++ Opcode.each .bitAnd ++ Opcode.each .bitOr ++ Opcode.each .shiftLeft ++
    Opcode.each .shiftRight ++ Opcode.each .mul ++ Opcode.each .div ++ Opcode.each .add ++
    Opcode.each .sub ++ [.setport .ati, .setport .pci, .setport .sysio, .setregblock, .setfbbase] ++
    Opcode.each .compare ++
    [.switch, .jump .always, .jump .equal, .jump .below, .jump .above, .jump .belowOrEqual,
      .jump .aboveOrEqual, .jump .notEqual] ++
    Opcode.each .test ++ [.delay, .delay, .calltable, .unimplemented] ++ Opcode.each .clear ++
    [.nop, .eot] ++ Opcode.each .mask ++
    [.postcard, .beep, .unimplemented, .unimplemented, .setdatablock] ++ Opcode.each .xor ++
    Opcode.each .shl ++ Opcode.each .shr ++
    [.debug, .processds, .mul32 .ps, .mul32 .ws, .div32 .ps, .div32 .ws]

/-- `opcode_table[op]` for an `op` between 0 and `ATOM_OP_CNT`. -/
def opcodeTable (op : Nat) : Option Opcode := if op = 0 then none else opcodes[op - 1]?

example : opcodes.length + 1 = 127 := rfl

/-- The function of an entry. What `atom_op_calltable` does is a step of the interpreter. -/
def Opcode.func (env : Env) : Opcode → Nat → M Nat
  | .move arg => atomOpMove env arg
  | .bitAnd arg => atomOpAnd env arg
  | .bitOr arg => atomOpOr env arg
  | .shiftLeft arg => atomOpShiftLeft env arg
  | .shiftRight arg => atomOpShiftRight env arg
  | .mul arg => atomOpMul env arg
  | .div arg => atomOpDiv env arg
  | .add arg => atomOpAdd env arg
  | .sub arg => atomOpSub env arg
  | .setport port => atomOpSetport env port
  | .setregblock => atomOpSetregblock env
  | .setfbbase => atomOpSetfbbase env
  | .compare arg => atomOpCompare env arg
  | .switch => atomOpSwitch env
  | .jump cond => atomOpJump env cond
  | .test arg => atomOpTest env arg
  | .clear arg => atomOpClear env arg
  | .mask arg => atomOpMask env arg
  | .setdatablock => atomOpSetdatablock env
  | .xor arg => atomOpXor env arg
  | .shl arg => atomOpShl env arg
  | .shr arg => atomOpShr env arg
  | .mul32 arg => atomOpMul32 env arg
  | .div32 arg => atomOpDiv32 env arg
  | .delay | .postcard | .debug => fun ptr => pure (ptr + 1)
  | .processds => fun ptr => pure (ptr + env.u16 ptr + 2)
  | .calltable | .unimplemented | .nop | .eot | .beep => fun ptr => pure ptr

end MxGpu.Atom
