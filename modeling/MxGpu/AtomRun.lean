import MxGpu.AtomOps

/-!
The interpreter of command tables as a machine: a stack of the tables that are running, one step
for each operation, each end of a round of the loop, each entry and each return.
-/

namespace MxGpu.Atom

open Checked

/-- Where the interpreter stands: at the entry of a table, in front of an operation of the innermost
table, behind one, at a return, at the end, or stopped. -/
inductive Control
  | call (index ps psSize : Nat)
  | fetch
  | after (op : Nat)
  | ret (status : Int)
  | done (status : Int)
  | stopped (stop : Stop)
  deriving DecidableEq, Repr

/-- The interpreter. `live` are the work spaces that are allocated; `failed` records that a table
returned an error. -/
structure Machine where
  control : Control
  frames : List Frame
  context : Context
  params : List Word
  debugDepth : Int
  live : List Nat
  failed : Bool
  reads : Nat
  stamps : Nat
  allocs : Nat
  card : List CardAccess

def amdgvFailure : Int := -1

def atomOpEot : Nat := 91

def atomOpcodeCalltable : Nat := 82

def atomOpcodeSwitch : Nat := 66

def atomOpcodeJumpMin : Nat := 68

def atomOpcodeJumpMax : Nat := 74

/-- The size of `buf`. -/
def bufSize : Nat := 128

/-- What ` 0x%x` prints. -/
def printByte (byte : Nat) : List Char := [' ', '0', 'x'] ++ Nat.toDigits 16 byte

/-- What ` 0x%08x ` prints. -/
def printWord (val : Word) : List Char :=
  [' ', '0', 'x'] ++
    (List.range 8).map (fun i => Nat.digitChar (val.toNat / 16 ^ (7 - i) % 16)) ++ [' ']

section Steps

variable (env : Env)

def traceText (f : Frame) : List Char :=
  (List.range' (f.pptr + 1) (f.ptr - (f.pptr + 1))).flatMap fun ptr => printByte (env.u8 ptr)

def abortText (params : List Word) (f : Frame) : List Char :=
  (List.range (min f.table.psShift f.table.psSize)).flatMap fun i =>
    printWord (params.getD (f.table.ps + i) 0)

def FitsBuf (text : List Char) : Prop := text.length < bufSize

instance (text : List Char) : Decidable (FitsBuf text) := inferInstanceAs (Decidable (_ < _))

def tracesBytes (op : Nat) : Bool :=
  !(decide (atomOpcodeJumpMin ≤ op) && decide (op ≤ atomOpcodeJumpMax)) &&
    op != atomOpcodeCalltable && op != atomOpcodeSwitch

/-- `CU16(ctx->cmd_table + 4 + 2 * index)`. -/
def tableBase (c : Context) (index : Nat) : Nat := env.u16 (c.cmdTable + 4 + 2 * index)

/-- The end of `amdgv_atom_execute_table_locked` for a table that ran. -/
def Machine.leave (m : Machine) (f : Frame) (rest : List Frame) (status : Int) : Machine :=
  { m with
    control := .ret status
    frames := rest
    debugDepth := m.debugDepth - 1
    live := match f.ws with
      | some work => m.live.erase work.id
      | none => m.live
    failed := m.failed || status != 0 }

/-- The beginning of `amdgv_atom_execute_table_locked`. -/
def Machine.enter (m : Machine) (index ps psSize : Nat) : Machine :=
  let base := tableBase env m.context index
  if base = 0 then { m with control := .ret amdgvFailure, failed := true }
  else
    let wsSize := env.u8 (base + 4)
    let allocates := wsSize ≠ 0
    let ws : Option Work :=
      if allocates ∧ env.alloc m.allocs then some ⟨m.allocs, List.replicate wsSize 0⟩ else none
    let table : Table :=
      { index
        start := base
        psShift := env.u8 (base + 5) % 0x80 / 4
        ps
        psSize
        wsSize
        startTime := env.stamp m.stamps }
    let frame : Frame := ⟨table, ws, false, 0, 0, base + 6, base + 6⟩
    { m with
      control := .fetch
      frames := frame :: m.frames
      debugDepth := m.debugDepth + 1
      live := match ws with
        | some work => work.id :: m.live
        | none => m.live
      allocs := if allocates then m.allocs + 1 else m.allocs
      stamps := m.stamps + 1 }

def Machine.atomOpCalltable (m : Machine) (f : Frame) (rest : List Frame) : Machine :=
  let idx := env.u8 (f.ptr + 1)
  let subPsSize := if f.table.psShift < f.table.psSize then f.table.psSize - f.table.psShift else 0
  let m := { m with frames := { f with ptr := f.ptr + 2 } :: rest }
  if tableBase env m.context idx ≠ 0 then
    { m with control := .call idx (f.table.ps + f.table.psShift) subPsSize }
  else { m with control := .after atomOpcodeCalltable }

def Machine.fetchOp (m : Machine) (f : Frame) (rest : List Frame) : Machine :=
  let op := env.u8 f.ptr
  match opcodeTable op with
  | none => m.leave { f with ptr := f.ptr + 1 } rest amdgvFailure
  | some .calltable => m.atomOpCalltable env f rest
  | some opcode =>
    match opcode.func env (f.ptr + 1) ⟨m.context, m.params, f, m.reads, m.stamps, m.card⟩ with
    | .error stop => { m with control := .stopped stop }
    | .ok (ptr, e) =>
      { m with
        control := .after op
        frames := { e.frame with ptr } :: rest
        context := e.context
        params := e.params
        reads := e.reads
        stamps := e.stamps
        card := e.card }

/-- The time behind an operation is in the last part of what a table may take. -/
def Machine.traced (m : Machine) (f : Frame) : Bool :=
  f.table.startTime + atomExecuteTimeout - 5000#64 < env.stamp m.stamps

def Machine.aborts (m : Machine) (f : Frame) : Bool :=
  f.abort || decide (atomExecuteTimeout < env.stamp m.stamps - f.table.startTime)

def Machine.afterOp (m : Machine) (f : Frame) (rest : List Frame) (op : Nat) : Machine :=
  if op = atomOpEot then m.leave f rest 0
  else
    let aborts := m.aborts env f
    let traced := m.traced env f
    let m := { m with stamps := m.stamps + 1 }
    if traced ∧ tracesBytes op ∧ ¬FitsBuf (traceText env f) then
      { m with control := .stopped .overrun }
    else if aborts then
      if FitsBuf (abortText m.params f) then
        m.leave { f with abort := true } rest amdgvFailure
      else { m with control := .stopped .overrun }
    else { m with control := .fetch, frames := { f with pptr := f.ptr } :: rest }

def Machine.step (m : Machine) : Machine :=
  match m.control, m.frames with
  | .call index ps psSize, _ => m.enter env index ps psSize
  | .fetch, f :: rest => m.fetchOp env f rest
  | .after op, f :: rest => m.afterOp env f rest op
  | .ret status, [] => { m with control := .done status }
  | .ret status, f :: rest =>
    { m with
      control := .after atomOpcodeCalltable
      frames := { f with abort := f.abort || status != 0 } :: rest }
  | _, _ => m

end Steps

/-- `amdgv_atom_execute_table`. -/
def execTable (c : Context) (index : Nat) (params : List Word) (debugDepth : Int) : Machine :=
  { control := .call index 0 params.length
    frames := []
    context :=
      { c with dataBlock := 0, regBlock := 0, fbBase := 0, ioMode := 0, divmul := (0, 0) }
    params
    debugDepth
    live := []
    failed := false
    reads := 0
    stamps := 1
    allocs := 0
    card := [] }

end MxGpu.Atom
