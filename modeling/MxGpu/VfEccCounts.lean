import MxGpu.RasAcaCounts
import MxGpu.RasVfCmd

/- The error counts that the VFs read (`amdgv_ras_mgr.c`, `amdgv_ras_cmd.c`): the totals of the host,
less those at the VF's own start. -/
namespace MxGpu.VfEcc

open Aca RasVf Function

/-- `RAS_BLOCK_ID__LAST` -/
def rasBlockIdLast : Nat := 39

def amdgvMaxVfNum : Nat := 31

def ofKind (counts : EccCounts) : ErrKind → BitVec 32
  | .ce => counts.ce
  | .ue => counts.ue
  | .de => counts.de

/-- The totals that `ras_core_query_block_ecc_data` finds. -/
def totals (blk : Nat) (socket : SocketEcc) : EccCounts :=
  let ecc := getBlockSocketEccCount blk socket
  ⟨ecc.totalCount .ce, ecc.totalCount .ue, ecc.totalCount .de⟩

def clearBlockSocketEccCount (blk : Nat) (socket : SocketEcc) : SocketEcc :=
  socket.map fun aid =>
    { eccErr := .zero
      xcd := if blk = rasBlockIdGfx then aid.xcd.map fun _ => .zero else aid.xcd }

/-- What is left to do of an operation: `ras_aca_clear_all_blocks_ecc_count`,
`amdgv_ras_mgr_vf_ecc_count_init` for a VF, and in there the banks of errors that the hardware still
holds (`ras_core_update_ecc_info`), and the totals of a block that are to be read or to be stored. -/
inductive Todo
  | clearAll
  | init (vf : Nat)
  | collect (vf : Nat)
  | take (vf blk : Nat)
  | put (vf blk : Nat) (counts : EccCounts)
  deriving DecidableEq

def Todo.concerns (v : Nat) : Todo → Prop
  | .clearAll => True
  | .init vf => vf = v
  | .collect vf => vf = v
  | .take vf _ => vf = v
  | .put vf _ _ => vf = v

/-- `amdgv_ras_mgr_vf_ecc_count_init`, and `amdgv_ras_reset_all_error_counts`, which clears the totals
if its input is right. -/
inductive Operation
  | vfInit (vf : Nat)
  | resetAll (cleared : Bool)

def Operation.program : Operation → List Todo
  | .vfInit vf => [.init vf]
  | .resetAll cleared =>
    (if cleared then [Todo.clearAll] else []) ++ (List.range amdgvMaxVfNum).map Todo.init

/-- What a VF has read of a block, with the errors since its last start. -/
structure Answer where
  counts : EccCounts
  since : ErrKind → Nat

/-- The counts of the host, the blocks in `ras_caps`, whether `amdgv_ras_mgr_is_ready`, the baselines
of the VFs, and what each thread has left to do. `since` has the errors of a block since the VF's
last initialisation or reset, which is where its totals are read, and `answers` what was read. -/
structure Sys where
  aca : Nat → SocketEcc
  caps : Nat → Bool
  ready : Bool
  baseline : Nat → Nat → EccCounts
  todo : Nat → List Todo
  since : Nat → Nat → ErrKind → Nat
  answers : List Answer

/-- `MAX_RAS_BLOCK_NUM` -/
def maxRasBlockNum : Nat := 20

/-- What a VF reads: nothing from `amdgv_ras_get_block_ecc_info` for a block that is not in
`ras_caps`, and zeros from `amdgv_ras_get_all_block_ecc_info`. -/
def Sys.read (s : Sys) (v blk : Nat) (all : Bool) : Option EccCounts :=
  if s.caps blk then some ((totals blk (s.aca blk)).since (s.baseline v blk))
  else if all then some ⟨0, 0, 0⟩
  else none

/-- A bank with errors of a block is logged. -/
def Sys.log (s : Sys) (blk : Nat) (bank : BankEcc) : Sys :=
  { s with
    aca := update s.aca blk (logBadBank blk (s.aca blk) bank)
    since := fun v => if checkBlockEccInfo blk (s.aca blk) bank then
        update (s.since v) blk fun kind => s.since v blk kind + (bank.count kind).toNat
      else s.since v }

def Sys.perform (s : Sys) (t : Nat) (rest : List Todo) : Todo → Sys
  | .clearAll =>
    { s with
      aca := fun blk =>
        if blk < rasBlockIdLast then clearBlockSocketEccCount blk (s.aca blk) else s.aca blk
      todo := update s.todo t rest }
  | .init vf =>
    if s.ready then { s with todo := update s.todo t (.collect vf :: rest) }
    else
      { s with
        since := update s.since vf fun _ _ => 0
        todo := update s.todo t rest }
  | .collect vf =>
    { s with
      baseline := update s.baseline vf fun _ => ⟨0, 0, 0⟩
      todo := update s.todo t ((List.range rasBlockIdLast).map (Todo.take vf) ++ rest) }
  | .take vf blk =>
    { s with
      todo := update s.todo t (.put vf blk (totals blk (s.aca blk)) :: rest)
      since := update s.since vf (update (s.since vf) blk fun _ => 0) }
  | .put vf blk counts =>
    { s with
      baseline := update s.baseline vf (update (s.baseline vf) blk counts)
      todo := update s.todo t rest }

/-- What happens: a bank with errors of a block is logged, the manager gets ready or not, a thread
starts an operation or goes on, with the bank that it finds in the hardware if it collects them, and
a VF asks for the counts of a block, alone or with all others. -/
inductive Event
  | error (blk : Nat) (bank : BankEcc)
  | setReady (ready : Bool)
  | start (t : Nat) (op : Operation)
  | run (t : Nat) (pending : Option (Nat × BankEcc))
  | query (v blk : Nat) (all : Bool)

def Sys.next (s : Sys) : Event → Option Sys
  | .error blk bank => some (s.log blk bank)
  | .setReady ready => some { s with ready }
  | .start t op =>
    if s.todo t = [] then some { s with todo := update s.todo t op.program } else none
  | .run t pending =>
    match s.todo t, pending with
    | [], _ => none
    | .collect _ :: _, some (blk, bank) => some (s.log blk bank)
    | first :: rest, _ => some (s.perform t rest first)
  | .query v blk all =>
    if v < amdgvMaxVfNum ∧ blk < rasBlockIdLast ∧ (all → blk < maxRasBlockNum) then
      match s.read v blk all with
      | none => some s
      | some counts => some { s with answers := s.answers ++ [⟨counts, s.since v blk⟩] }
    else none

structure Sys.Initial (s : Sys) : Prop where
  aca : ∀ blk, ∀ ecc ∈ entries blk (s.aca blk), ecc = .zero
  baseline : ∀ v blk, s.baseline v blk = ⟨0, 0, 0⟩
  todo : ∀ t, s.todo t = []
  since : ∀ v blk kind, s.since v blk kind = 0
  answers : s.answers = []

/-- All answers are the errors since the start of the VF that has asked. -/
def Sys.Lawful (s : Sys) : Prop :=
  ∀ answer ∈ s.answers, ∀ kind, (ofKind answer.counts kind).toNat = answer.since kind

/-- The VF whose initialisation or question a step is part of. -/
def Sys.actsFor (s : Sys) : Event → Option Nat
  | .query v _ _ => some v
  | .run t _ =>
    match s.todo t with
    | .init v :: _ => some v
    | .collect v :: _ => some v
    | .take v _ :: _ => some v
    | .put v _ _ :: _ => some v
    | _ => none
  | _ => none

/-- A step of an initialisation that finds a bank of errors in the hardware. -/
def Sys.Collects (s : Sys) : Event → Prop
  | .run t (some _) => ∃ v, (s.todo t).head? = some (.collect v)
  | _ => False

def Sys.Concerns (s : Sys) (t v : Nat) : Prop := ∃ todo ∈ s.todo t, todo.concerns v

/-- There is room in the 32-bit totals of a block. -/
def Sys.Fits (s : Sys) (blk : Nat) (bank : BankEcc) : Prop :=
  checkBlockEccInfo blk (s.aca blk) bank →
    ∀ kind, entrySum (·.totalCount kind) blk (s.aca blk) + (bank.count kind).toNat < 2 ^ 32

/-- What the steps have to find: the 32-bit totals do not overflow, the baselines of a VF are taken
by one thread at a time and while the manager is ready, and a VF does not ask meanwhile, nor with
all others for a block that is not in `ras_caps`. -/
def Sys.Meets (s : Sys) : Event → Prop
  | .error blk bank => s.Fits blk bank
  | .setReady _ => True
  | .start _ op => ∀ v, (∃ todo ∈ op.program, todo.concerns v) → ∀ t, ¬ s.Concerns t v
  | .run t pending =>
    (∀ v, (s.todo t).head? = some (.init v) → s.ready) ∧
      ∀ found ∈ pending, (∃ v, (s.todo t).head? = some (.collect v)) → s.Fits found.1 found.2
  | .query v blk all => (∀ t, ¬ s.Concerns t v) ∧ (all → s.caps blk)

end MxGpu.VfEcc
