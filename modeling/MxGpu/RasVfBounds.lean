import MxGpu.RasVfCmd

/- What a RAS command of a VF reads and writes. -/
namespace MxGpu.RasVf

open ByteStore

def responseSize : VfCmd → BitVec 32
  | .getBlockEccStatus => 40
  | .getBadPages => 1312
  | .getCperSnapshot => 40
  | .getCperRecord => 32
  | .getBatchTraceSnapshot => 40
  | .getBatchTraceRecord => 50424
  | .getAllBlockEccStatus => 264
  | .setCmdAutoUpdate => 20
  | .checkAddressValidity => 32
  | .convertRetiredAddress => 1032

def VfTable.Holds (table : VfTable) (offset : BitVec 64) (size : BitVec 32) : Prop :=
  table.offset.toNat ≤ offset.toNat ∧
    offset.toNat + size.toNat ≤ table.offset.toNat + table.size.toNat

/-- The host reads and writes the table of the VF and nothing else. It writes no more than the
guest's buffer and its own take, and a command whose response does not fit into the host's buffer
is not reported to have succeeded. -/
def Access.Contained (table : VfTable) : Access → Prop
  | .copyFromVf offset size => table.Holds offset size
  | .copyToVf offset size gpaSize memSize cmd =>
    table.Holds offset size ∧ size ≤ gpaSize ∧ size ≤ memSize ∧
      ∀ vfCmd, VfCmd.ofId cmd.cmdId = some vfCmd → memSize < ctxSize + responseSize vfCmd →
        cmd.cmdRes ≠ Response.success.code
  | .hostWrite _ size => size = 0
  | .userWrite _ size => size = 0

section Answers

variable (host : Host) (idxVf : BitVec 32) (cmd : RasCmdCtx)

/-- The batch with the `n`th id from `start` on. -/
def cperTrace (start : BitVec 64) (n : Nat) : List LogInfo :=
  host.batchRecords (start + BitVec.ofNat 64 n)

def cperSize (start : BitVec 64) (n : Nat) : Nat :=
  if cperTrace host start n = [] then 0 else (host.cper (cperTrace host start n)).size.toNat

/-- The size of the records of `k` batches. -/
def cperSizes (start : BitVec 64) (n : Nat) : Nat → Nat
  | 0 => 0
  | k + 1 => cperSize host start n + cperSizes start (n + 1) k

/-- No byte is written for the batches from the `n`th on that come before the last batch and fit
into the buffer. -/
def NothingWritten (start : BitVec 64) (room n count : Nat) : Prop :=
  ∀ k < count, (∀ j ≤ k, start + BitVec.ofNat 64 (n + j) < host.lastBatch) →
    cperTrace host start (n + k) ≠ [] → cperSizes host start n (k + 1) ≤ room →
      (host.cper (cperTrace host start (n + k))).written = 0

def Answered : VfCmd → Prop
  | .getBlockEccStatus => field32 cmd.input 8 < rasBlockIdLast ∧
      host.rasCaps &&& 1#64 <<< (field32 cmd.input 8).toNat ≠ 0 ∧ cmd.inputSize = 32 ∧
        (host.ecc (field32 cmd.input 8)).isSome
  | .getBadPages => cmd.inputSize = 32 ∧ (getGroupBadPages host (field32 cmd.input 8)).isSome
  | .getCperSnapshot | .getBatchTraceSnapshot => cmd.inputSize = 8
  | .getCperRecord => cmd.inputSize = 48 ∧ field32 cmd.input 20 ≠ 0 ∧ field64 cmd.input 24 ≠ 0 ∧
      field32 cmd.input 16 ≠ 0 ∧ host.traceAllocated = true ∧
        (host.accessOk (field64 cmd.input 24) (field32 cmd.input 20) = true →
          ∃ buf, host.bufAllocated = some buf ∧ buf ≠ 0)
  | .getBatchTraceRecord => cmd.inputSize = 40 ∧ field32 cmd.input 16 ≠ 0 ∧
      field32 cmd.input 16 ≤ 300 ∧ host.firstBatch ≤ clampStart host (field64 cmd.input 8) ∧
        clampStart host (field64 cmd.input 8) < host.lastBatch ∧ host.traceAllocated = true
  | .getAllBlockEccStatus => cmd.inputSize = 8 ∧ ∀ blk < 20,
      host.rasCaps &&& 1#64 <<< blk ≠ 0 → (host.ecc (BitVec.ofNat 32 blk)).isSome
  | .setCmdAutoUpdate => cmd.inputSize = 48
  | .checkAddressValidity => cmd.inputSize = 40 ∧ field64 cmd.input 8 ≠ 0 ∧
      host.rowsAllocated = true ∧
        host.rowPages (checkedAddress host idxVf cmd >>> 12) host.maxPagesPerRow ≠ []
  | .convertRetiredAddress => cmd.inputSize = 40 ∧
      host.rowPages ((field64 cmd.input 8 + mbytesToBytes host.fbOffset) >>> 12) 128 ≠ []

end Answers

/-- A handler answers where the command has what it needs and the response fits, and leaves the
output alone where it does not. -/
structure HandlerSpec (host : Host) (idxVf : BitVec 32) (cmd : RasCmdCtx) (vfCmd : VfCmd)
    (handled : Handled) : Prop where
  cmdId : handled.cmd.cmdId = cmd.cmdId
  bufSize : handled.cmd.outputBufSize = cmd.outputBufSize
  answered : Answered host idxVf cmd vfCmd → responseSize vfCmd ≤ cmd.outputBufSize →
    handled.cmd.outputSize = responseSize vfCmd
  refused : ¬(Answered host idxVf cmd vfCmd ∧ responseSize vfCmd ≤ cmd.outputBufSize) →
    handled.cmd.outputSize = cmd.outputSize

section Specifications

variable {host : Host} {idxVf : BitVec 32} {cmd : RasCmdCtx} {vfCmd : VfCmd}

theorem HandlerSpec.fail {res : Response}
    (h : ¬(Answered host idxVf cmd vfCmd ∧ responseSize vfCmd ≤ cmd.outputBufSize)) :
    HandlerSpec host idxVf cmd vfCmd (fail cmd res) :=
  ⟨rfl, rfl, fun ha hfit => absurd ⟨ha, hfit⟩ h, fun _ => rfl⟩

theorem HandlerSpec.answer {output : Output} (ha : Answered host idxVf cmd vfCmd)
    (hfit : responseSize vfCmd ≤ cmd.outputBufSize) :
    HandlerSpec host idxVf cmd vfCmd (answer cmd output (responseSize vfCmd)) :=
  ⟨rfl, rfl, fun _ _ => rfl, fun h => absurd ⟨ha, hfit⟩ h⟩

theorem getBlockEccInfo_spec (hmgr : host.rasMgr = true) :
    HandlerSpec host idxVf cmd .getBlockEccStatus (getBlockEccInfo host cmd) := by
  unfold getBlockEccInfo
  dsimp only
  split
  · rename_i hblock
    exact .fail fun h => absurd h.1.1 (BitVec.not_lt.mpr hblock)
  · rename_i hblock
    split
    · rename_i hcaps
      exact .fail fun h => h.1.2.1 hcaps
    · rename_i hcaps
      rw [hmgr]
      simp only [Bool.not_true, Bool.false_eq_true, if_false]
      split
      · rename_i hsize
        refine .fail fun h => ?_
        rcases hsize with hin | hout
        · exact hin h.1.2.2.1
        · exact absurd h.2 (BitVec.not_le.mpr hout)
      · rename_i hsize
        rw [not_or, Decidable.not_not, BitVec.not_lt] at hsize
        cases hecc : host.ecc (field32 cmd.input 8) with
        | none =>
          refine .fail fun h => ?_
          have hsome := h.1.2.2.2
          rw [hecc] at hsome
          cases hsome
        | some counts =>
          refine .answer ⟨BitVec.not_le.mp hblock, hcaps, hsize.1, ?_⟩ hsize.2
          rw [hecc]
          rfl

theorem getBadPages_spec :
    HandlerSpec host idxVf cmd .getBadPages (getBadPages host idxVf cmd) := by
  unfold getBadPages
  split
  · rename_i hsize
    refine .fail fun h => ?_
    rcases hsize with hin | hout
    · exact hin h.1.1
    · exact absurd h.2 (BitVec.not_le.mpr hout)
  · rename_i hsize
    rw [not_or, Decidable.not_not, BitVec.not_lt] at hsize
    cases hgroup : getGroupBadPages host (field32 cmd.input 8) with
    | none =>
      refine .fail fun h => ?_
      have hsome := h.1.2
      rw [hgroup] at hsome
      cases hsome
    | some rsp =>
      have ha : Answered host idxVf cmd .getBadPages := by
        refine ⟨hsize.1, ?_⟩
        rw [hgroup]
        rfl
      dsimp only
      split
      · exact .answer ha hsize.2
      · exact .answer ha hsize.2

theorem getSnapshot_spec (hmgr : host.rasMgr = true)
    (hcmd : vfCmd = .getCperSnapshot ∨ vfCmd = .getBatchTraceSnapshot) :
    HandlerSpec host idxVf cmd vfCmd (getSnapshot host cmd) := by
  have hanswered : Answered host idxVf cmd vfCmd ↔ cmd.inputSize = 8 := by
    rcases hcmd with rfl | rfl
    · exact Iff.rfl
    · exact Iff.rfl
  have hresponse : responseSize vfCmd = 40 := by
    rcases hcmd with rfl | rfl
    · rfl
    · rfl
  unfold getSnapshot
  rw [hmgr]
  simp only [Bool.not_true, Bool.false_eq_true, if_false]
  split
  · rename_i hin
    exact .fail fun h => hin (hanswered.mp h.1)
  · rename_i hin
    split
    · rename_i hout
      refine .fail fun h => ?_
      rw [hresponse] at h
      exact absurd h.2 (BitVec.not_le.mpr hout)
    · rename_i hout
      have hanswer := @HandlerSpec.answer host idxVf cmd vfCmd (.snapshot (snapshotSince host))
        (hanswered.mpr (Decidable.not_not.mp hin))
      rw [hresponse] at hanswer
      exact hanswer (BitVec.not_lt.mp hout)

theorem mapM_isSome {α β : Type} (f : α → Option β) (l : List α) :
    (l.mapM f).isSome ↔ ∀ a ∈ l, (f a).isSome := by
  induction l with
  | nil => simp
  | cons a l ih =>
    rw [List.forall_mem_cons, ← ih, List.mapM_cons]
    cases ha : f a with
    | none => simp
    | some b =>
      cases hl : l.mapM f with
      | none => simp
      | some bs => simp

theorem getAllBlockEccInfo_spec (hmgr : host.rasMgr = true) (hroom : 3792 ≤ cmd.outputBufSize) :
    HandlerSpec host idxVf cmd .getAllBlockEccStatus (getAllBlockEccInfo host cmd) := by
  have hfit : (264 : BitVec 32) ≤ cmd.outputBufSize := BitVec.le_trans (by decide) hroom
  have hblocks := mapM_isSome (fun blk : Nat =>
    if host.rasCaps &&& 1#64 <<< blk = 0 then some ⟨0, 0, 0⟩
    else (host.ecc (BitVec.ofNat 32 blk)).map (·.since (host.baseline (BitVec.ofNat 32 blk))))
    (List.range 20)
  have hanswered : Answered host idxVf cmd .getAllBlockEccStatus ↔ cmd.inputSize = 8 ∧
      ∀ blk ∈ List.range 20, (if host.rasCaps &&& 1#64 <<< blk = 0 then
        some (⟨0, 0, 0⟩ : EccCounts) else (host.ecc (BitVec.ofNat 32 blk)).map
          (·.since (host.baseline (BitVec.ofNat 32 blk)))).isSome := by
    refine and_congr_right fun _ => forall_congr' fun blk => ?_
    rw [List.mem_range]
    refine imp_congr_right fun _ => ?_
    split
    · rename_i hcaps
      exact iff_of_true (fun hne => absurd hcaps hne) rfl
    · rename_i hcaps
      rw [Option.isSome_map]
      exact ⟨fun h => h hcaps, fun h _ => h⟩
  unfold getAllBlockEccInfo
  split
  · rename_i hin
    exact .fail fun h => hin h.1.1
  · rename_i hin
    rw [hmgr]
    simp only [Bool.not_true, Bool.false_eq_true, if_false]
    split
    · rename_i hnone
      refine .fail fun h => ?_
      have hsome := hblocks.mpr (hanswered.mp h.1).2
      rw [hnone] at hsome
      cases hsome
    · rename_i blocks hblk
      rw [hblk] at hblocks
      exact .answer (hanswered.mpr ⟨Decidable.not_not.mp hin, hblocks.mp rfl⟩) hfit

theorem checkAddressValidity_spec (hroom : 3792 ≤ cmd.outputBufSize) :
    HandlerSpec host idxVf cmd .checkAddressValidity (checkAddressValidity host idxVf cmd) := by
  have hfit : (32 : BitVec 32) ≤ cmd.outputBufSize := BitVec.le_trans (by decide) hroom
  unfold checkAddressValidity
  dsimp only
  split
  · rename_i hbad
    refine .fail fun h => ?_
    rcases hbad with hin | hzero
    · exact hin h.1.1
    · exact h.1.2.1 hzero
  · rename_i hgood
    rw [not_or, Decidable.not_not] at hgood
    split
    · rename_i hrows
      refine .fail fun h => ?_
      rw [h.1.2.2.1] at hrows
      cases hrows
    · rename_i hrows
      split
      · rename_i hnone
        exact .fail fun h => h.1.2.2.2 hnone
      · rename_i hsome
        exact .answer ⟨hgood.1, hgood.2, by simpa using hrows, hsome⟩ hfit

theorem convertRetiredAddress_spec (hroom : 3792 ≤ cmd.outputBufSize) :
    HandlerSpec host idxVf cmd .convertRetiredAddress (convertRetiredAddress host idxVf cmd) := by
  have hfit : (1032 : BitVec 32) ≤ cmd.outputBufSize := BitVec.le_trans (by decide) hroom
  have hanswered : Answered host idxVf cmd .convertRetiredAddress ↔ cmd.inputSize = 40 ∧
      host.rowPages ((field64 cmd.input 8 + mbytesToBytes host.fbOffset) >>> 12) 128 ≠ [] :=
    Iff.rfl
  unfold convertRetiredAddress
  dsimp only
  split
  · rename_i hin
    exact ⟨rfl, rfl, fun ha _ => absurd (hanswered.mp ha).1 hin, fun _ => rfl⟩
  · rename_i hin
    split
    · rename_i hnone
      exact ⟨rfl, rfl, fun ha _ => absurd hnone (hanswered.mp ha).2, fun _ => rfl⟩
    · rename_i hsome
      have ha := hanswered.mpr ⟨Decidable.not_not.mp hin, hsome⟩
      split
      · exact ⟨rfl, rfl, fun _ _ => rfl, fun h => absurd ⟨ha, hfit⟩ h⟩
      · exact ⟨rfl, rfl, fun _ _ => rfl, fun h => absurd ⟨ha, hfit⟩ h⟩

theorem setCmdAutoUpdate_spec (hmgr : host.rasMgr = true) (hvf : ¬idxVf ≥ amdgvMaxVfNum)
    (hroom : 3792 ≤ cmd.outputBufSize) (added : Bool)
    (nested : BitVec 64 → BitVec 32 → List Access × Option Ret) :
    HandlerSpec host idxVf cmd .setCmdAutoUpdate
      (setCmdAutoUpdate host idxVf cmd added nested) := by
  have hfit : (20 : BitVec 32) ≤ cmd.outputBufSize := BitVec.le_trans (by decide) hroom
  have hanswered : Answered host idxVf cmd .setCmdAutoUpdate ↔ cmd.inputSize = 48 := Iff.rfl
  unfold setCmdAutoUpdate
  rw [hmgr, decide_eq_false hvf]
  simp only [Bool.not_true, Bool.or_false, Bool.false_eq_true, if_false]
  split
  · rename_i hin
    exact ⟨rfl, rfl, fun ha _ => absurd (hanswered.mp ha) hin, fun _ => rfl⟩
  · rename_i hin
    have ha := hanswered.mpr (Decidable.not_not.mp hin)
    split
    · exact ⟨rfl, rfl, fun _ _ => rfl, fun h => absurd ⟨ha, hfit⟩ h⟩
    · exact ⟨rfl, rfl, fun _ _ => rfl, fun h => absurd ⟨ha, hfit⟩ h⟩

theorem field64_setField64 (input : Store) (offset : Nat) (value : BitVec 64) :
    field64 (setField64 input offset value) offset = value := by
  unfold field64 setField64
  rw [read_write_self (leBytes_length 8 _), ofLe_leBytes]
  apply BitVec.eq_of_toNat_eq
  rw [BitVec.toNat_ofNat]
  have hlt := value.isLt
  omega

theorem field64_setField64_other {input : Store} {offset at_ : Nat} {value : BitVec 64}
    (h : at_ + 8 ≤ offset ∨ offset + 8 ≤ at_) :
    field64 (setField64 input offset value) at_ = field64 input at_ := by
  unfold field64 setField64
  rw [read_write_outside]
  rwa [leBytes_length]

theorem field32_setField64 {input : Store} {offset at_ : Nat} {value : BitVec 64}
    (h : at_ + 4 ≤ offset ∨ offset + 8 ≤ at_) :
    field32 (setField64 input offset value) at_ = field32 input at_ := by
  unfold field32 setField64
  rw [read_write_outside]
  rwa [leBytes_length]

theorem getBatchTraceRecords_spec (hmgr : host.rasMgr = true) :
    HandlerSpec host idxVf cmd .getBatchTraceRecord (getBatchTraceRecords host cmd) := by
  unfold getBatchTraceRecords
  rw [hmgr]
  simp only [Bool.not_true, Bool.false_eq_true, if_false]
  split
  · rename_i hin
    exact .fail fun h => hin h.1.1
  · rename_i hin
    split
    · rename_i hnum
      exact .fail fun h => h.1.2.1 hnum
    · rename_i hnum
      unfold rasGetBatchTraceRecords
      dsimp only
      rw [field64_setField64, field32_setField64 (.inr (Nat.le_refl _))]
      split
      · rename_i hsize
        refine ⟨rfl, rfl, fun ha hfit => ?_, fun _ => rfl⟩
        rcases hsize with hbad | hout
        · exact absurd hbad hin
        · exact absurd hfit (BitVec.not_le.mpr hout)
      · rename_i hsize
        rw [not_or, BitVec.not_lt] at hsize
        split
        · rename_i hbad
          refine ⟨rfl, rfl, fun ha _ => ?_, fun _ => rfl⟩
          rcases hbad with hzero | hmore
          · exact absurd hzero hnum
          · exact absurd ha.2.2.1 (BitVec.not_le.mpr hmore)
        · rename_i hgood
          rw [not_or] at hgood
          split
          · rename_i hbad
            refine ⟨rfl, rfl, fun ha _ => ?_, fun _ => rfl⟩
            rcases hbad with hearly | hlate
            · exact absurd ha.2.2.2.1 (BitVec.not_le.mpr hearly)
            · exact absurd ha.2.2.2.2.1 (BitVec.not_lt.mpr hlate)
          · rename_i hrange
            rw [not_or] at hrange
            split
            · rename_i hnone
              refine ⟨rfl, rfl, fun ha _ => ?_, fun _ => rfl⟩
              rw [ha.2.2.2.2.2] at hnone
              cases hnone
            · rename_i htrace
              refine ⟨rfl, rfl, fun _ _ => rfl, fun h => absurd ⟨?_, hsize.2⟩ h⟩
              exact ⟨Decidable.not_not.mp hin, hnum, BitVec.not_lt.mp hgood.2,
                BitVec.not_lt.mp hrange.1, BitVec.not_le.mp hrange.2, by simpa using htrace⟩

section Cper

variable {start : BitVec 64} {room n count : Nat}

theorem nothingWritten_late (h : start + BitVec.ofNat 64 n ≥ host.lastBatch) :
    NothingWritten host start room n count := by
  intro k _ hids
  have hfirst := hids 0 (Nat.zero_le k)
  exact absurd hfirst (BitVec.not_lt.mpr h)

theorem nothingWritten_full (h : cperSize host start n > room) :
    NothingWritten host start room n count := by
  intro k _ _ _ hfit
  have hsizes : cperSize host start n + cperSizes host start (n + 1) k ≤ room := hfit
  omega

theorem nothingWritten_succ (hid : start + BitVec.ofNat 64 n < host.lastBatch)
    (hfit : cperSize host start n ≤ room) :
    NothingWritten host start room n (count + 1) ↔
      (cperTrace host start n ≠ [] → (host.cper (cperTrace host start n)).written = 0) ∧
        NothingWritten host start (room - cperSize host start n) (n + 1) count := by
  constructor
  · intro h
    refine ⟨fun htrace => ?_, fun k hk hids htrace hroom => ?_⟩
    · apply h 0 (Nat.succ_pos count) _ htrace
      · show cperSize host start n + 0 ≤ room
        exact hfit
      · intro j hj
        rw [Nat.le_zero.mp hj]
        exact hid
    · have hnext : n + 1 + k = n + (k + 1) := by omega
      rw [hnext] at htrace ⊢
      apply h (k + 1) (Nat.succ_lt_succ hk) _ htrace
      · show cperSize host start n + cperSizes host start (n + 1) (k + 1) ≤ room
        omega
      · intro j hj
        cases j with
        | zero => exact hid
        | succ j =>
          have hj' := hids j (Nat.le_of_succ_le_succ hj)
          rwa [show n + 1 + j = n + (j + 1) by omega] at hj'
  · rintro ⟨hfirst, hrest⟩ k hk hids htrace hroom
    cases k with
    | zero => exact hfirst htrace
    | succ k =>
      have hsizes : cperSize host start n + cperSizes host start (n + 1) (k + 1) ≤ room := hroom
      have hnext : n + (k + 1) = n + 1 + k := by omega
      rw [hnext] at htrace ⊢
      apply hrest k (Nat.lt_of_succ_lt_succ hk) _ htrace (by omega)
      intro j hj
      have hj' := hids (j + 1) (Nat.succ_le_succ hj)
      rwa [show n + (j + 1) = n + 1 + j by omega] at hj'

theorem cperLoop_writes {bufSize offset : BitVec 32} {left : Nat} (hn : n + left < 2 ^ 32)
    (hoffset : offset ≤ bufSize) :
    (∀ w ∈ (cperLoop host start bufSize left (BitVec.ofNat 32 n) offset).1, w.2 = 0) ↔
      NothingWritten host start (bufSize - offset).toNat n left := by
  induction left generalizing n offset with
  | zero =>
    refine iff_of_true (fun w hw => absurd hw List.not_mem_nil) fun k hk => ?_
    exact absurd hk (Nat.not_lt_zero k)
  | succ left ih =>
    have hindex : (BitVec.ofNat 32 n).setWidth 64 = BitVec.ofNat 64 n := by
      apply BitVec.eq_of_toNat_eq
      rw [BitVec.toNat_setWidth, BitVec.toNat_ofNat, BitVec.toNat_ofNat]
      omega
    have hnext : BitVec.ofNat 32 n + 1 = BitVec.ofNat 32 (n + 1) := by
      rw [BitVec.ofNat_add]
      rfl
    have hsub : (bufSize - offset).toNat = bufSize.toNat - offset.toNat :=
      BitVec.toNat_sub_of_le hoffset
    unfold cperLoop
    dsimp only
    rw [hindex, hnext]
    split
    · rename_i hlate
      exact iff_of_true (fun w hw => absurd hw List.not_mem_nil) (nothingWritten_late hlate)
    · rename_i hlate
      have hid := BitVec.not_le.mp hlate
      split
      · rename_i hnone
        have hzero : cperSize host start n = 0 := if_pos hnone
        rw [ih (by omega) hoffset,
          nothingWritten_succ hid (by rw [hzero]; exact Nat.zero_le _), hzero]
        exact ⟨fun h => ⟨fun hsome => absurd hnone hsome, h⟩, fun h => h.2⟩
      · rename_i hsome
        have hsize : cperSize host start n =
            (host.cper (cperTrace host start n)).size.toNat := if_neg hsome
        split
        · rename_i hfull
          refine iff_of_true (fun w hw => absurd hw List.not_mem_nil) (nothingWritten_full ?_)
          rw [hsize]
          exact hfull
        · rename_i hfull
          have hfit : cperSize host start n ≤ (bufSize - offset).toNat := by
            rw [hsize]
            exact BitVec.not_lt.mp hfull
          have hle : offset.toNat ≤ bufSize.toNat := hoffset
          have hadd : (offset + (host.cper (cperTrace host start n)).size).toNat =
              offset.toNat + (host.cper (cperTrace host start n)).size.toNat := by
            rw [BitVec.toNat_add]
            omega
          have hoffset' : offset + (host.cper (cperTrace host start n)).size ≤ bufSize := by
            show _ ≤ bufSize.toNat
            rw [hadd]
            omega
          have hleft : (bufSize - (offset + (host.cper (cperTrace host start n)).size)).toNat =
              (bufSize - offset).toNat - cperSize host start n := by
            rw [BitVec.toNat_sub_of_le hoffset', hadd, hsub, hsize]
            omega
          rw [nothingWritten_succ hid hfit, ← hleft, ← ih (by omega) hoffset',
            List.forall_mem_cons]
          exact and_congr_left fun _ => ⟨fun h _ => h, fun h => h hsome⟩

/-- What `ras_cmd_get_cper_records` wants. -/
def CperAsked (host : Host) (cmd : RasCmdCtx) : Prop :=
  cmd.inputSize = 48 ∧ 32 ≤ cmd.outputBufSize ∧ field32 cmd.input 20 ≠ 0 ∧
    field64 cmd.input 24 ≠ 0 ∧ field32 cmd.input 16 ≠ 0 ∧ host.traceAllocated = true

theorem rasGetCperRecords_asked (h : CperAsked host cmd) :
    ∃ output, (rasGetCperRecords host cmd).1 = answer cmd output 32 ∧
      (rasGetCperRecords host cmd).2 = (cperLoop host (field64 cmd.input 8) (field32 cmd.input 20)
        (field32 cmd.input 16).toNat 0 0).1 := by
  obtain ⟨hin, hout, hsize, hptr, hnum, htrace⟩ := h
  unfold rasGetCperRecords
  dsimp only
  rw [if_neg (not_or.mpr ⟨not_not.mpr hin, BitVec.not_lt.mpr hout⟩),
    if_neg (not_or.mpr ⟨hsize, not_or.mpr ⟨hptr, hnum⟩⟩), if_neg (by simp [htrace])]
  exact ⟨_, rfl, rfl⟩

theorem rasGetCperRecords_refused (h : ¬CperAsked host cmd) :
    ∃ res, res ≠ .success ∧ rasGetCperRecords host cmd = (fail cmd res, []) := by
  unfold rasGetCperRecords
  dsimp only
  split
  · exact ⟨_, by decide, rfl⟩
  · rename_i hsize
    split
    · exact ⟨_, by decide, rfl⟩
    · rename_i hdata
      split
      · exact ⟨_, by decide, rfl⟩
      · rename_i htrace
        rw [not_or, Decidable.not_not, BitVec.not_lt] at hsize
        rw [not_or, not_or] at hdata
        exact absurd ⟨hsize.1, hsize.2, hdata.1, hdata.2.1, hdata.2.2, by simpa using htrace⟩ h

/-- The records do not go to a user, and none is written. -/
def CperQuiet (host : Host) (cmd : RasCmdCtx) : Prop :=
  host.accessOk (field64 cmd.input 24) (field32 cmd.input 20) = false ∧
    NothingWritten host (clampStart host (field64 cmd.input 8)) (field32 cmd.input 20).toNat 0
      (field32 cmd.input 16).toNat

/-- What `amdgv_ras_get_cper_records` answers, and whether it stays in the VF's table. -/
structure CperSpec (table : VfTable) (host : Host) (idxVf : BitVec 32) (cmd : RasCmdCtx)
    (handled : Handled) : Prop where
  answers : HandlerSpec host idxVf cmd .getCperRecord handled
  returned : handled.returned = true
  contained : (∀ access ∈ handled.accesses, access.Contained table) ↔
    (Answered host idxVf cmd .getCperRecord → CperQuiet host cmd)

theorem CperSpec.refused {table : VfTable} {handled : Handled}
    (hno : ¬Answered host idxVf cmd .getCperRecord) (hid : handled.cmd.cmdId = cmd.cmdId)
    (hbuf : handled.cmd.outputBufSize = cmd.outputBufSize)
    (hsize : handled.cmd.outputSize = cmd.outputSize) (hreturned : handled.returned = true)
    (haccesses : handled.accesses = []) : CperSpec table host idxVf cmd handled := by
  refine ⟨⟨hid, hbuf, fun ha => absurd ha hno, fun _ => hsize⟩, hreturned, ?_⟩
  rw [haccesses]
  exact iff_of_true (fun access h => absurd h List.not_mem_nil) fun h => absurd h hno

theorem getCperRecords_spec (hmgr : host.rasMgr = true) (hroom : 3792 ≤ cmd.outputBufSize)
    (table : VfTable) : CperSpec table host idxVf cmd (getCperRecords host cmd) := by
  have hfit : (32 : BitVec 32) ≤ cmd.outputBufSize := BitVec.le_trans (by decide) hroom
  unfold getCperRecords
  rw [hmgr]
  simp only [Bool.not_true, Bool.false_eq_true, if_false]
  split
  · rename_i hin
    exact .refused (fun h => hin h.1) rfl rfl rfl rfl rfl
  · rename_i hin
    split
    · rename_i hdata
      refine .refused (fun h => ?_) rfl rfl rfl rfl rfl
      rcases hdata with hsize | hptr | hnum
      · exact h.2.1 hsize
      · exact h.2.2.1 hptr
      · exact h.2.2.2.1 hnum
    · rename_i hdata
      rw [not_or, not_or] at hdata
      have hclamp : ∀ input : Store,
          field32 (setField64 input 8 (clampStart host (field64 cmd.input 8))) 20 =
            field32 input 20 ∧
          field32 (setField64 input 8 (clampStart host (field64 cmd.input 8))) 16 =
            field32 input 16 ∧
          field64 (setField64 input 8 (clampStart host (field64 cmd.input 8))) 24 =
            field64 input 24 := fun input =>
        ⟨field32_setField64 (.inr (by decide)), field32_setField64 (.inr (by decide)),
          field64_setField64_other (.inr (by decide))⟩
      split
      · rename_i huser
        cases hbuf : host.bufAllocated with
        | none =>
          refine .refused (fun h => ?_) rfl rfl rfl rfl rfl
          obtain ⟨buf, hsome, _⟩ := h.2.2.2.2.2 huser
          rw [hbuf] at hsome
          cases hsome
        | some buf =>
          dsimp only
          have hptr : field64 (setField64 cmd.input 24 buf) 24 = buf := field64_setField64 _ _ _
          have hsize : field32 (setField64 cmd.input 24 buf) 20 = field32 cmd.input 20 :=
            field32_setField64 (.inl (by decide))
          have hnum : field32 (setField64 cmd.input 24 buf) 16 = field32 cmd.input 16 :=
            field32_setField64 (.inl (by decide))
          obtain ⟨hsize', hnum', hptr'⟩ := hclamp (setField64 cmd.input 24 buf)
          by_cases hasked : CperAsked host { cmd with
            input := setField64 (setField64 cmd.input 24 buf) 8
              (clampStart host (field64 cmd.input 8)) }
          · obtain ⟨output, hanswer, _⟩ := rasGetCperRecords_asked hasked
            rw [hanswer, if_neg (by exact fun h => h rfl)]
            obtain ⟨_, _, _, hbufptr, _, htrace⟩ := hasked
            have hne : buf ≠ 0 := by
              rw [← hptr, ← hptr']
              exact hbufptr
            have ha : Answered host idxVf cmd .getCperRecord :=
              ⟨not_not.mp hin, hdata.1, hdata.2.1, hdata.2.2, htrace, fun _ => ⟨buf, hbuf, hne⟩⟩
            refine ⟨⟨rfl, rfl, fun _ _ => rfl, fun h => absurd ⟨ha, hfit⟩ h⟩, rfl,
              iff_of_false (fun h => ?_) fun h => ?_⟩
            · exact hdata.1 (h _ List.mem_cons_self)
            · exact Bool.noConfusion (huser.symm.trans (h ha).1)
          · obtain ⟨res, hres, hrefused⟩ := rasGetCperRecords_refused hasked
            rw [hrefused, if_pos (by exact hres)]
            refine .refused (fun h => hasked ?_) rfl rfl rfl rfl rfl
            obtain ⟨buf', hbuf', hne⟩ := h.2.2.2.2.2 huser
            rw [hbuf] at hbuf'
            cases hbuf'
            refine ⟨h.1, hfit, ?_, ?_, ?_, h.2.2.2.2.1⟩
            · exact (hsize'.trans hsize).symm ▸ h.2.1
            · exact (hptr'.trans hptr).symm ▸ hne
            · exact (hnum'.trans hnum).symm ▸ h.2.2.2.1
      · rename_i huser
        obtain ⟨hsize, hnum, hptr⟩ := hclamp cmd.input
        by_cases hasked : CperAsked host { cmd with
          input := setField64 cmd.input 8 (clampStart host (field64 cmd.input 8)) }
        · obtain ⟨output, hanswer, hwrites⟩ := rasGetCperRecords_asked hasked
          obtain ⟨_, _, _, _, _, htrace⟩ := hasked
          have ha : Answered host idxVf cmd .getCperRecord :=
            ⟨not_not.mp hin, hdata.1, hdata.2.1, hdata.2.2, htrace, fun h => absurd h huser⟩
          have hstart : field64 (setField64 cmd.input 8
              (clampStart host (field64 cmd.input 8))) 8 =
                clampStart host (field64 cmd.input 8) := field64_setField64 _ _ _
          rw [hanswer, hwrites, hstart, hsize, hnum]
          refine ⟨⟨rfl, rfl, fun _ _ => rfl, fun h => absurd ⟨ha, hfit⟩ h⟩, rfl, ?_⟩
          have hloop := @cperLoop_writes host (clampStart host (field64 cmd.input 8)) 0
            (field32 cmd.input 20) 0 (field32 cmd.input 16).toNat
            (by have := (field32 cmd.input 16).isLt; omega) (Nat.zero_le _)
          rw [show field32 cmd.input 20 - 0 = field32 cmd.input 20 from BitVec.sub_zero _] at hloop
          have hquiet : CperQuiet host cmd ↔ NothingWritten host
              (clampStart host (field64 cmd.input 8)) (field32 cmd.input 20).toNat 0
              (field32 cmd.input 16).toNat :=
            ⟨fun h => h.2, fun h => ⟨Bool.eq_false_iff.mpr huser, h⟩⟩
          rw [imp_iff_right ha, hquiet, ← hloop]
          constructor
          · intro h w hw
            exact h _ (List.mem_map.mpr ⟨w, hw, rfl⟩)
          · intro h access haccess
            obtain ⟨w, hw, rfl⟩ := List.mem_map.mp haccess
            exact h w hw
        · obtain ⟨res, hres, hrefused⟩ := rasGetCperRecords_refused hasked
          rw [hrefused]
          refine .refused (fun h => hasked ?_) rfl rfl rfl rfl rfl
          refine ⟨h.1, hfit, ?_, ?_, ?_, h.2.2.2.2.1⟩
          · exact hsize.symm ▸ h.2.1
          · exact hptr.symm ▸ h.2.2.1
          · exact hnum.symm ▸ h.2.2.2.1

end Cper

theorem amdgvRasHandleCmd_spec (hmgr : host.rasMgr = true) (hvf : ¬idxVf ≥ amdgvMaxVfNum)
    (hroom : 3792 ≤ cmd.outputBufSize) (added : Bool)
    (nested : BitVec 64 → BitVec 32 → List Access × Option Ret) (table : VfTable) :
    HandlerSpec host idxVf cmd vfCmd
      (amdgvRasHandleCmd host idxVf cmd added nested vfCmd) := by
  cases vfCmd with
  | getBlockEccStatus => exact getBlockEccInfo_spec hmgr
  | getBadPages => exact getBadPages_spec
  | getCperSnapshot => exact getSnapshot_spec hmgr (.inl rfl)
  | getCperRecord => exact (getCperRecords_spec hmgr hroom table).answers
  | getBatchTraceSnapshot => exact getSnapshot_spec hmgr (.inr rfl)
  | getBatchTraceRecord => exact getBatchTraceRecords_spec hmgr
  | getAllBlockEccStatus => exact getAllBlockEccInfo_spec hmgr hroom
  | setCmdAutoUpdate => exact setCmdAutoUpdate_spec hmgr hvf hroom added nested
  | checkAddressValidity => exact checkAddressValidity_spec hroom
  | convertRetiredAddress => exact convertRetiredAddress_spec hroom

def Nests (cmd : RasCmdCtx) (added : Bool) (vfCmd : VfCmd) : Prop :=
  vfCmd = .setCmdAutoUpdate ∧ cmd.inputSize = 48 ∧ added = true ∧ field32 cmd.input 8 ≠ 0

theorem setCmdAutoUpdate_accesses (hmgr : host.rasMgr = true) (hvf : ¬idxVf ≥ amdgvMaxVfNum)
    (added : Bool) (nested : BitVec 64 → BitVec 32 → List Access × Option Ret) :
    (Nests cmd added .setCmdAutoUpdate ∧
        (setCmdAutoUpdate host idxVf cmd added nested).accesses =
          (nested (field64 cmd.input 16) (field32 cmd.input 24)).1 ∧
        (setCmdAutoUpdate host idxVf cmd added nested).returned =
          (nested (field64 cmd.input 16) (field32 cmd.input 24)).2.isSome) ∨
      (¬Nests cmd added .setCmdAutoUpdate ∧
        (setCmdAutoUpdate host idxVf cmd added nested).accesses = [] ∧
        (setCmdAutoUpdate host idxVf cmd added nested).returned = true) := by
  unfold setCmdAutoUpdate
  rw [hmgr, decide_eq_false hvf]
  simp only [Bool.not_true, Bool.or_false, Bool.false_eq_true, if_false]
  split
  · rename_i hin
    exact .inr ⟨fun h => hin h.2.1, rfl, rfl⟩
  · rename_i hin
    split
    · rename_i hmode
      rw [Bool.and_eq_true, decide_eq_true_eq] at hmode
      exact .inl ⟨⟨rfl, not_not.mp hin, hmode.1, hmode.2⟩, rfl, rfl⟩
    · rename_i hmode
      refine .inr ⟨fun h => hmode ?_, rfl, rfl⟩
      rw [Bool.and_eq_true, decide_eq_true_eq]
      exact h.2.2

theorem amdgvRasHandleCmd_plain (hcper : vfCmd ≠ .getCperRecord) (hauto : vfCmd ≠ .setCmdAutoUpdate)
    (added : Bool) (nested : BitVec 64 → BitVec 32 → List Access × Option Ret) :
    (amdgvRasHandleCmd host idxVf cmd added nested vfCmd).accesses = [] ∧
      (amdgvRasHandleCmd host idxVf cmd added nested vfCmd).returned = true := by
  cases vfCmd with
  | getBlockEccStatus =>
    show (getBlockEccInfo host cmd).accesses = [] ∧ (getBlockEccInfo host cmd).returned = true
    unfold getBlockEccInfo
    dsimp only
    split <;> [exact ⟨rfl, rfl⟩; skip]
    split <;> [exact ⟨rfl, rfl⟩; skip]
    split <;> [exact ⟨rfl, rfl⟩; skip]
    split <;> [exact ⟨rfl, rfl⟩; skip]
    split <;> exact ⟨rfl, rfl⟩
  | getBadPages =>
    show (getBadPages host idxVf cmd).accesses = [] ∧ (getBadPages host idxVf cmd).returned = true
    unfold getBadPages
    split <;> [exact ⟨rfl, rfl⟩; skip]
    split <;> [exact ⟨rfl, rfl⟩; skip]
    split <;> exact ⟨rfl, rfl⟩
  | getCperSnapshot | getBatchTraceSnapshot =>
    show (getSnapshot host cmd).accesses = [] ∧ (getSnapshot host cmd).returned = true
    unfold getSnapshot
    split <;> [exact ⟨rfl, rfl⟩; skip]
    split <;> [exact ⟨rfl, rfl⟩; skip]
    split <;> exact ⟨rfl, rfl⟩
  | getCperRecord => exact absurd rfl hcper
  | getBatchTraceRecord =>
    show (getBatchTraceRecords host cmd).accesses = [] ∧
      (getBatchTraceRecords host cmd).returned = true
    unfold getBatchTraceRecords
    split <;> [exact ⟨rfl, rfl⟩; skip]
    split <;> [exact ⟨rfl, rfl⟩; skip]
    split <;> [exact ⟨rfl, rfl⟩; skip]
    unfold rasGetBatchTraceRecords
    dsimp only
    split <;> [exact ⟨rfl, rfl⟩; skip]
    split <;> [exact ⟨rfl, rfl⟩; skip]
    split <;> [exact ⟨rfl, rfl⟩; skip]
    split <;> exact ⟨rfl, rfl⟩
  | getAllBlockEccStatus =>
    show (getAllBlockEccInfo host cmd).accesses = [] ∧
      (getAllBlockEccInfo host cmd).returned = true
    unfold getAllBlockEccInfo
    split <;> [exact ⟨rfl, rfl⟩; skip]
    split <;> [exact ⟨rfl, rfl⟩; skip]
    dsimp only
    split <;> exact ⟨rfl, rfl⟩
  | setCmdAutoUpdate => exact absurd rfl hauto
  | checkAddressValidity =>
    show (checkAddressValidity host idxVf cmd).accesses = [] ∧
      (checkAddressValidity host idxVf cmd).returned = true
    unfold checkAddressValidity
    split <;> [exact ⟨rfl, rfl⟩; skip]
    split <;> [exact ⟨rfl, rfl⟩; skip]
    dsimp only
    split <;> exact ⟨rfl, rfl⟩
  | convertRetiredAddress =>
    show (convertRetiredAddress host idxVf cmd).accesses = [] ∧
      (convertRetiredAddress host idxVf cmd).returned = true
    unfold convertRetiredAddress
    split <;> [exact ⟨rfl, rfl⟩; skip]
    dsimp only
    split <;> [exact ⟨rfl, rfl⟩; skip]
    split <;> exact ⟨rfl, rfl⟩

end Specifications

/-- The call finds its buffer in the table and fetches the command. -/
structure Accepted (table : VfTable) (idxVf : BitVec 32) (turn : Turn) (gpaAddr : BitVec 64)
    (gpaSize : BitVec 32) : Prop where
  addr : gpaAddr ≠ 0
  large : ¬gpaSize < ctxSize
  small : ¬gpaSize > rasCmdMaxBufSize
  vf : ¬idxVf ≥ amdgvMaxVfNum
  mgr : turn.host.rasMgr = true
  table : ¬(table.size = 0 ∨ gpaAddr < table.offset ∨
    gpaAddr - table.offset > table.size - gpaSize.setWidth 64)
  allocated : turn.allocated = true
  copiedFrom : turn.copiedFrom = true

/-- The guest's buffer takes the response of every command that has one, the host's buffer takes
the response of every command, and nothing is written of a CPER record. -/
def Fits (table : VfTable) (idxVf : BitVec 32) : List Turn → BitVec 64 → BitVec 32 → Prop
  | [], _, _ => True
  | turn :: turns, gpaAddr, gpaSize =>
    Accepted table idxVf turn gpaAddr gpaSize → turn.host.enabled = true →
      turn.host.inResetTooLong = false → ∀ vfCmd, VfCmd.ofId turn.cmd.cmdId = some vfCmd →
        responseSize vfCmd ≤ memSize gpaSize - ctxSize ∧
          (Answered turn.host idxVf turn.cmd vfCmd → responseSize vfCmd ≤ gpaSize - ctxSize) ∧
          (vfCmd = .getCperRecord → Answered turn.host idxVf turn.cmd vfCmd →
            CperQuiet turn.host turn.cmd) ∧
          (Nests turn.cmd turn.added vfCmd →
            Fits table idxVf turns (field64 turn.cmd.input 16) (field32 turn.cmd.input 24))

section Calls

variable {table : VfTable} {idxVf : BitVec 32} {turn : Turn} {turns : List Turn}
  {gpaAddr : BitVec 64} {gpaSize : BitVec 32}

theorem VfTable.size_toNat (h : table.size ≠ 0) : table.size.toNat = 0x10000 := by
  rcases table.sized with hzero | hsized
  · unfold VfTable.size at h
    rw [hzero] at h
    exact absurd rfl h
  · unfold VfTable.size
    rw [hsized]
    rfl

theorem Accepted.inside (h : Accepted table idxVf turn gpaAddr gpaSize) :
    table.offset.toNat ≤ gpaAddr.toNat ∧
      gpaAddr.toNat + gpaSize.toNat ≤ table.offset.toNat + table.size.toNat := by
  have htable := h.table
  rw [not_or, not_or, BitVec.not_lt, BitVec.not_lt] at htable
  obtain ⟨hne, hle, hfits⟩ := htable
  have hsize := VfTable.size_toNat hne
  have hsmall : gpaSize.toNat ≤ 53248 := BitVec.not_lt.mp h.small
  have hwide : (gpaSize.setWidth 64).toNat = gpaSize.toNat := by
    rw [BitVec.toNat_setWidth]
    omega
  have hroom : (table.size - gpaSize.setWidth 64).toNat = table.size.toNat - gpaSize.toNat := by
    rw [BitVec.toNat_sub_of_le, hwide]
    show (gpaSize.setWidth 64).toNat ≤ table.size.toNat
    omega
  have hdiff : (gpaAddr - table.offset).toNat = gpaAddr.toNat - table.offset.toNat :=
    BitVec.toNat_sub_of_le hle
  have hle' : table.offset.toNat ≤ gpaAddr.toNat := hle
  have hfits' : gpaAddr.toNat - table.offset.toNat ≤ table.size.toNat - gpaSize.toNat := by
    rw [← hdiff, ← hroom]
    exact hfits
  exact ⟨hle', by omega⟩

theorem Accepted.holds (h : Accepted table idxVf turn gpaAddr gpaSize) {size : BitVec 32}
    (hsize : size ≤ gpaSize) : table.Holds gpaAddr size := by
  obtain ⟨hle, hend⟩ := h.inside
  have hsize' : size.toNat ≤ gpaSize.toNat := hsize
  exact ⟨hle, by omega⟩

theorem memSize_toNat : (memSize gpaSize).toNat = max 4096 gpaSize.toNat := by
  unfold memSize
  split
  · rename_i hlt
    have hlt' : gpaSize.toNat < 4096 := hlt
    show 4096 = _
    omega
  · rename_i hge
    have hge' : 4096 ≤ gpaSize.toNat := BitVec.not_lt.mp hge
    omega

theorem outputBufSize_toNat :
    (memSize gpaSize - ctxSize).toNat = max 4096 gpaSize.toNat - 304 := by
  have hle : ctxSize ≤ memSize gpaSize := by
    show 304 ≤ (memSize gpaSize).toNat
    rw [memSize_toNat]
    omega
  rw [BitVec.toNat_sub_of_le hle, memSize_toNat]
  rfl

theorem handleVfCmd_refused (h : ¬Accepted table idxVf turn gpaAddr gpaSize) :
    ∀ access ∈ (amdgvRasHandleVfCmd table idxVf (turn :: turns) gpaAddr gpaSize).1,
      access.Contained table := by
  have hnone : ∀ access ∈ ([] : List Access), access.Contained table :=
    fun access hmem => absurd hmem List.not_mem_nil
  rw [amdgvRasHandleVfCmd]
  by_cases hargs : gpaAddr = 0 ∨ gpaSize < ctxSize ∨ gpaSize > rasCmdMaxBufSize ∨
      idxVf ≥ amdgvMaxVfNum
  · rw [if_pos hargs]
    exact hnone
  · rw [if_neg hargs]
    rw [not_or, not_or, not_or] at hargs
    cases hmgr : turn.host.rasMgr with
    | false => exact hnone
    | true =>
      rw [if_neg (by decide)]
      by_cases htable : table.size = 0 ∨ gpaAddr < table.offset ∨
          gpaAddr - table.offset > table.size - gpaSize.setWidth 64
      · rw [if_pos htable]
        exact hnone
      · rw [if_neg htable]
        cases hallocated : turn.allocated with
        | false => exact hnone
        | true =>
          rw [if_neg (by decide)]
          cases hcopied : turn.copiedFrom with
          | true =>
            exact absurd ⟨hargs.1, hargs.2.1, hargs.2.2.1, hargs.2.2.2, hmgr, htable,
              hallocated, hcopied⟩ h
          | false =>
            have haccepted : Accepted table idxVf { turn with copiedFrom := true } gpaAddr
                gpaSize :=
              ⟨hargs.1, hargs.2.1, hargs.2.2.1, hargs.2.2.2, hmgr, htable, hallocated, rfl⟩
            intro access hmem
            rw [List.mem_singleton.mp hmem]
            show table.Holds (table.offset + (gpaAddr - table.offset)) ctxSize
            rw [BitVec.add_comm, BitVec.sub_add_cancel]
            exact haccepted.holds (BitVec.not_lt.mp hargs.2.1)

theorem handleVfCmd_accepted (h : Accepted table idxVf turn gpaAddr gpaSize) :
    amdgvRasHandleVfCmd table idxVf (turn :: turns) gpaAddr gpaSize =
      if turn.cmd.cmdId = 0 ∨ turn.cmd.cmdId ≥ rasCmdIdMxgpuVfEnd then
        ([.copyFromVf gpaAddr ctxSize], some .notSupported)
      else
        let handled := amdgvRasCmdHandleVfCmd turn.host idxVf
          { turn.cmd with output := .zeros, outputBufSize := memSize gpaSize - ctxSize } turn.added
          (amdgvRasHandleVfCmd table idxVf turns)
        if !handled.returned then (.copyFromVf gpaAddr ctxSize :: handled.accesses, none)
        else
          let cmd := if handled.res ≠ .success then
            { handled.cmd with cmdRes := handled.res.code, outputSize := 0 } else handled.cmd
          let outDataSize := if handled.res ≠ .success then ctxSize else ctxSize + cmd.outputSize
          (.copyFromVf gpaAddr ctxSize :: handled.accesses ++
              [.copyToVf gpaAddr outDataSize gpaSize (memSize gpaSize) cmd],
            some (if turn.copiedTo then .ok else .copyFailed)) := by
  have haddr : table.offset + (gpaAddr - table.offset) = gpaAddr := by
    rw [BitVec.add_comm, BitVec.sub_add_cancel]
  have hno : ¬(!true) = true := Bool.false_ne_true
  rw [amdgvRasHandleVfCmd,
    if_neg (not_or.mpr ⟨h.addr, not_or.mpr ⟨h.large, not_or.mpr ⟨h.small, h.vf⟩⟩⟩), h.mgr,
    if_neg hno, if_neg h.table, h.allocated, if_neg hno, h.copiedFrom, haddr]
  show (if (!true) = true then _ else _) = _
  rw [if_neg hno]

theorem VfCmd.ofId_range {cmdId : BitVec 32} {vfCmd : VfCmd} (h : VfCmd.ofId cmdId = some vfCmd) :
    ¬(cmdId = 0 ∨ cmdId ≥ rasCmdIdMxgpuVfEnd) := by
  rintro (hzero | hlarge)
  · rw [hzero] at h
    cases h
  · have hlarge' : 0x40000 ≤ cmdId.toNat := hlarge
    unfold VfCmd.ofId at h
    split at h
    all_goals first | omega | cases h

def handlerCtx (cmd : RasCmdCtx) (gpaSize : BitVec 32) : RasCmdCtx :=
  { cmd with
    output := .zeros
    outputBufSize := memSize gpaSize - ctxSize
    cmdRes := Response.invalidCmd.code
    outputSize := 0 }

def dispatched (table : VfTable) (idxVf : BitVec 32) (turn : Turn) (turns : List Turn)
    (gpaSize : BitVec 32) (vfCmd : VfCmd) : Handled :=
  amdgvRasHandleCmd turn.host idxVf (handlerCtx turn.cmd gpaSize) turn.added
    (amdgvRasHandleVfCmd table idxVf turns) vfCmd

theorem dispatched_spec (h : Accepted table idxVf turn gpaAddr gpaSize) (vfCmd : VfCmd) :
    HandlerSpec turn.host idxVf (handlerCtx turn.cmd gpaSize) vfCmd
      (dispatched table idxVf turn turns gpaSize vfCmd) := by
  apply amdgvRasHandleCmd_spec h.mgr h.vf _ _ _ table
  show 3792 ≤ (memSize gpaSize - ctxSize).toNat
  rw [outputBufSize_toNat]
  omega

theorem handleVfCmd_dispatched (h : Accepted table idxVf turn gpaAddr gpaSize)
    (henabled : turn.host.enabled = true) (hreset : turn.host.inResetTooLong = false)
    {vfCmd : VfCmd} (hcmd : VfCmd.ofId turn.cmd.cmdId = some vfCmd) :
    ∃ cmd : RasCmdCtx, cmd.cmdId = turn.cmd.cmdId ∧ cmd.cmdRes = Response.success.code ∧
      amdgvRasHandleVfCmd table idxVf (turn :: turns) gpaAddr gpaSize =
        if !(dispatched table idxVf turn turns gpaSize vfCmd).returned then
          (.copyFromVf gpaAddr ctxSize ::
            (dispatched table idxVf turn turns gpaSize vfCmd).accesses, none)
        else (.copyFromVf gpaAddr ctxSize ::
            (dispatched table idxVf turn turns gpaSize vfCmd).accesses ++
              [.copyToVf gpaAddr (ctxSize +
                (dispatched table idxVf turn turns gpaSize vfCmd).cmd.outputSize) gpaSize
                  (memSize gpaSize) cmd],
          some (if turn.copiedTo then .ok else .copyFailed)) := by
  have hspec := @dispatched_spec table idxVf turn turns gpaAddr gpaSize h vfCmd
  have hfits : ¬(dispatched table idxVf turn turns gpaSize vfCmd).cmd.outputSize >
      (dispatched table idxVf turn turns gpaSize vfCmd).cmd.outputBufSize := by
    rw [hspec.bufSize]
    by_cases hanswer : Answered turn.host idxVf (handlerCtx turn.cmd gpaSize) vfCmd ∧
        responseSize vfCmd ≤ (handlerCtx turn.cmd gpaSize).outputBufSize
    · rw [hspec.answered hanswer.1 hanswer.2]
      exact BitVec.not_lt.mpr hanswer.2
    · rw [hspec.refused hanswer]
      exact BitVec.not_lt.mpr (Nat.zero_le _)
  have hsubmit : amdgvRasCmdHandleVfCmd turn.host idxVf
      { turn.cmd with output := .zeros, outputBufSize := memSize gpaSize - ctxSize } turn.added
        (amdgvRasHandleVfCmd table idxVf turns) =
      { dispatched table idxVf turn turns gpaSize vfCmd with
        cmd := { (dispatched table idxVf turn turns gpaSize vfCmd).cmd with
          cmdRes := Response.success.code }
        res := .success } := by
    unfold amdgvRasCmdHandleVfCmd amdgvRasSubmitCmd
    dsimp only
    rw [hcmd, henabled, hreset]
    show Handled.mk { (dispatched table idxVf turn turns gpaSize vfCmd).cmd with
        cmdRes := (if (dispatched table idxVf turn turns gpaSize vfCmd).cmd.outputSize >
            (dispatched table idxVf turn turns gpaSize vfCmd).cmd.outputBufSize then
          Response.exceedBuffer else .success).code } _ _ _ = _
    rw [if_neg hfits]
    rfl
  refine ⟨{ (dispatched table idxVf turn turns gpaSize vfCmd).cmd with
    cmdRes := Response.success.code }, hspec.cmdId, rfl, ?_⟩
  rw [handleVfCmd_accepted h, if_neg (VfCmd.ofId_range hcmd), hsubmit]
  rfl

theorem amdgvRasCmdHandleVfCmd_denied {host : Host} {cmd : RasCmdCtx} {added : Bool}
    {nested : BitVec 64 → BitVec 32 → List Access × Option Ret}
    (hno : ∀ vfCmd, VfCmd.ofId cmd.cmdId = some vfCmd →
      host.enabled = false ∨ host.inResetTooLong = true) :
    ∃ denied res, amdgvRasCmdHandleVfCmd host idxVf cmd added nested = ⟨denied, res, [], true⟩ ∧
      (res ≠ .success ∨ denied.outputSize = 0 ∧ denied.cmdRes ≠ Response.success.code) := by
  unfold amdgvRasCmdHandleVfCmd
  cases hcmd : VfCmd.ofId cmd.cmdId with
  | none => exact ⟨_, _, rfl, .inl (by decide)⟩
  | some vfCmd =>
    unfold amdgvRasSubmitCmd
    dsimp only
    cases henabled : host.enabled with
    | false => exact ⟨_, _, rfl, .inr ⟨rfl, by show (8 : BitVec 32) ≠ 0; decide⟩⟩
    | true =>
      rcases hno vfCmd hcmd with hdisabled | hreset
      · exact Bool.noConfusion (henabled.symm.trans hdisabled)
      · rw [hreset]
        exact ⟨_, _, rfl, .inr ⟨rfl, by show (10 : BitVec 32) ≠ 0; decide⟩⟩

theorem handleVfCmd_denied (h : Accepted table idxVf turn gpaAddr gpaSize)
    (hno : ∀ vfCmd, VfCmd.ofId turn.cmd.cmdId = some vfCmd →
      turn.host.enabled = false ∨ turn.host.inResetTooLong = true) :
    ∀ access ∈ (amdgvRasHandleVfCmd table idxVf (turn :: turns) gpaAddr gpaSize).1,
      access.Contained table := by
  have hsmall : ctxSize ≤ gpaSize := BitVec.not_lt.mp h.large
  have hmem : ctxSize ≤ memSize gpaSize := by
    show 304 ≤ (memSize gpaSize).toNat
    rw [memSize_toNat]
    omega
  have hfetch : (Access.copyFromVf gpaAddr ctxSize).Contained table := h.holds hsmall
  have hreply : ∀ cmd : RasCmdCtx, cmd.cmdRes ≠ Response.success.code →
      (Access.copyToVf gpaAddr ctxSize gpaSize (memSize gpaSize) cmd).Contained table :=
    fun cmd hres => ⟨h.holds hsmall, hsmall, hmem, fun _ _ _ => hres⟩
  rw [handleVfCmd_accepted h]
  by_cases hrange : turn.cmd.cmdId = 0 ∨ turn.cmd.cmdId ≥ rasCmdIdMxgpuVfEnd
  · rw [if_pos hrange]
    intro access haccess
    rw [List.mem_singleton.mp haccess]
    exact hfetch
  · obtain ⟨denied, res, hdenied, herror⟩ := @amdgvRasCmdHandleVfCmd_denied idxVf turn.host
      { turn.cmd with output := .zeros, outputBufSize := memSize gpaSize - ctxSize } turn.added
      (amdgvRasHandleVfCmd table idxVf turns) hno
    rw [if_neg hrange, hdenied]
    intro access haccess
    rcases List.mem_cons.mp haccess with rfl | haccess
    · exact hfetch
    · rw [List.mem_singleton.mp haccess]
      by_cases hres : res = .success
      · rcases herror with hne | ⟨hsize, hcode⟩
        · exact absurd hres hne
        · rw [if_neg (not_not.mpr hres), if_neg (not_not.mpr hres), hsize]
          exact hreply denied hcode
      · rw [if_pos hres, if_pos hres]
        apply hreply
        show res.code ≠ Response.success.code
        cases res with
        | success => exact absurd rfl hres
        | _ => decide

theorem dispatched_accesses (h : Accepted table idxVf turn gpaAddr gpaSize) (vfCmd : VfCmd) :
    ((∀ access ∈ (dispatched table idxVf turn turns gpaSize vfCmd).accesses,
        access.Contained table) ↔
      (vfCmd = .getCperRecord → Answered turn.host idxVf turn.cmd vfCmd →
          CperQuiet turn.host turn.cmd) ∧
        (Nests turn.cmd turn.added vfCmd →
          ∀ access ∈ (amdgvRasHandleVfCmd table idxVf turns (field64 turn.cmd.input 16)
            (field32 turn.cmd.input 24)).1, access.Contained table)) ∧
      ((dispatched table idxVf turn turns gpaSize vfCmd).returned = true ↔
        (Nests turn.cmd turn.added vfCmd →
          (amdgvRasHandleVfCmd table idxVf turns (field64 turn.cmd.input 16)
            (field32 turn.cmd.input 24)).2.isSome)) := by
  by_cases hcper : vfCmd = .getCperRecord
  · subst hcper
    have hroom : 3792 ≤ (handlerCtx turn.cmd gpaSize).outputBufSize := by
      show 3792 ≤ (memSize gpaSize - ctxSize).toNat
      rw [outputBufSize_toNat]
      omega
    have hspec := @getCperRecords_spec turn.host idxVf (handlerCtx turn.cmd gpaSize) h.mgr hroom
      table
    have hnests : ¬Nests turn.cmd turn.added .getCperRecord := fun hnests =>
      VfCmd.noConfusion hnests.1
    refine ⟨?_, iff_of_true hspec.returned fun hn => absurd hn hnests⟩
    refine hspec.contained.trans ⟨fun hquiet => ⟨fun _ => hquiet, fun hn => absurd hn hnests⟩,
      fun hquiet => hquiet.1 rfl⟩
  · by_cases hauto : vfCmd = .setCmdAutoUpdate
    · subst hauto
      rcases @setCmdAutoUpdate_accesses turn.host idxVf (handlerCtx turn.cmd gpaSize) h.mgr h.vf
        turn.added (amdgvRasHandleVfCmd table idxVf turns) with
        ⟨hnests, haccesses, hreturned⟩ | ⟨hnests, haccesses, hreturned⟩
      · have haccesses' : (dispatched table idxVf turn turns gpaSize .setCmdAutoUpdate).accesses =
            _ := haccesses
        have hreturned' : (dispatched table idxVf turn turns gpaSize .setCmdAutoUpdate).returned =
            _ := hreturned
        have hnests' : Nests turn.cmd turn.added .setCmdAutoUpdate := hnests
        rw [haccesses', hreturned', imp_iff_right hnests', imp_iff_right hnests']
        exact ⟨⟨fun hall => ⟨fun hno => absurd hno hcper, hall⟩, fun hall => hall.2⟩, Iff.rfl⟩
      · have hnests' : ¬Nests turn.cmd turn.added .setCmdAutoUpdate := hnests
        have haccesses' : (dispatched table idxVf turn turns gpaSize .setCmdAutoUpdate).accesses =
            [] := haccesses
        refine ⟨?_, iff_of_true hreturned fun hn => absurd hn hnests'⟩
        rw [haccesses']
        exact iff_of_true (fun access hmem => absurd hmem List.not_mem_nil)
          ⟨fun hno => absurd hno hcper, fun hn => absurd hn hnests'⟩
    · obtain ⟨haccesses, hreturned⟩ := @amdgvRasHandleCmd_plain turn.host idxVf
        (handlerCtx turn.cmd gpaSize) vfCmd hcper hauto turn.added
        (amdgvRasHandleVfCmd table idxVf turns)
      have haccesses' : (dispatched table idxVf turn turns gpaSize vfCmd).accesses = [] :=
        haccesses
      refine ⟨?_, iff_of_true hreturned fun hn => absurd hn.1 hauto⟩
      rw [haccesses']
      exact iff_of_true (fun access hmem => absurd hmem List.not_mem_nil)
        ⟨fun hno => absurd hno hcper, fun hn => absurd hn.1 hauto⟩

theorem reply_contained (h : Accepted table idxVf turn gpaAddr gpaSize) {vfCmd : VfCmd}
    (hcmd : VfCmd.ofId turn.cmd.cmdId = some vfCmd) {cmd : RasCmdCtx}
    (hid : cmd.cmdId = turn.cmd.cmdId) (hres : cmd.cmdRes = Response.success.code) :
    (Access.copyToVf gpaAddr (ctxSize +
        (dispatched table idxVf turn turns gpaSize vfCmd).cmd.outputSize) gpaSize
          (memSize gpaSize) cmd).Contained table ↔
      responseSize vfCmd ≤ memSize gpaSize - ctxSize ∧
        (Answered turn.host idxVf turn.cmd vfCmd → responseSize vfCmd ≤ gpaSize - ctxSize) := by
  have hspec := @dispatched_spec table idxVf turn turns gpaAddr gpaSize h vfCmd
  have hbuf := @outputBufSize_toNat gpaSize
  have hmem := @memSize_toNat gpaSize
  have hlarge : 304 ≤ gpaSize.toNat := BitVec.not_lt.mp h.large
  have hsmall : gpaSize.toNat ≤ 53248 := BitVec.not_lt.mp h.small
  have hsub : (gpaSize - ctxSize).toNat = gpaSize.toNat - 304 :=
    BitVec.toNat_sub_of_le (BitVec.not_lt.mp h.large)
  have hresponse : (responseSize vfCmd).toNat ≤ 50424 := by
    cases vfCmd <;> decide
  have hadd : ∀ size : BitVec 32, size.toNat ≤ 50424 → (ctxSize + size).toNat = 304 + size.toNat := by
    intro size hsize
    rw [BitVec.toNat_add]
    show (304 + size.toNat) % 2 ^ 32 = _
    omega
  constructor
  · rintro ⟨_, hgpa, _, hreport⟩
    have hfit : responseSize vfCmd ≤ memSize gpaSize - ctxSize := by
      by_contra hlarge'
      refine hreport vfCmd (hid ▸ hcmd) ?_ hres
      show (memSize gpaSize).toNat < (ctxSize + responseSize vfCmd).toNat
      have hlt : (memSize gpaSize - ctxSize).toNat < (responseSize vfCmd).toNat :=
        BitVec.not_le.mp hlarge'
      rw [hadd _ hresponse]
      omega
    refine ⟨hfit, fun ha => ?_⟩
    rw [hspec.answered ha hfit] at hgpa
    have hgpa' : (ctxSize + responseSize vfCmd).toNat ≤ gpaSize.toNat := hgpa
    rw [hadd _ hresponse] at hgpa'
    show (responseSize vfCmd).toNat ≤ (gpaSize - ctxSize).toNat
    omega
  · rintro ⟨hfit, hguest⟩
    have hfit' : (responseSize vfCmd).toNat ≤ (memSize gpaSize - ctxSize).toNat := hfit
    have hsize : (ctxSize + (dispatched table idxVf turn turns gpaSize vfCmd).cmd.outputSize).toNat ≤
        gpaSize.toNat := by
      by_cases hanswer : Answered turn.host idxVf turn.cmd vfCmd
      · have hguest' : (responseSize vfCmd).toNat ≤ (gpaSize - ctxSize).toNat := hguest hanswer
        rw [hspec.answered hanswer hfit, hadd _ hresponse]
        omega
      · rw [hspec.refused fun h => hanswer h.1]
        exact hlarge
    refine ⟨h.holds hsize, hsize, ?_, fun other hother hshort => ?_⟩
    · show _ ≤ (memSize gpaSize).toNat
      omega
    · rw [hid, hcmd] at hother
      cases hother
      have hshort' : (memSize gpaSize).toNat < (ctxSize + responseSize vfCmd).toNat := hshort
      rw [hadd _ hresponse] at hshort'
      omega

theorem handleVfCmd_contained (turns : List Turn) (gpaAddr : BitVec 64) (gpaSize : BitVec 32) :
    (Fits table idxVf turns gpaAddr gpaSize →
        ∀ access ∈ (amdgvRasHandleVfCmd table idxVf turns gpaAddr gpaSize).1,
          access.Contained table) ∧
      ((amdgvRasHandleVfCmd table idxVf turns gpaAddr gpaSize).2.isSome →
        (∀ access ∈ (amdgvRasHandleVfCmd table idxVf turns gpaAddr gpaSize).1,
          access.Contained table) → Fits table idxVf turns gpaAddr gpaSize) := by
  induction turns generalizing gpaAddr gpaSize with
  | nil => exact ⟨fun _ access hmem => absurd hmem List.not_mem_nil, fun _ _ => trivial⟩
  | cons turn turns ih =>
    by_cases haccepted : Accepted table idxVf turn gpaAddr gpaSize
    · by_cases hdenied : ∀ vfCmd, VfCmd.ofId turn.cmd.cmdId = some vfCmd →
          turn.host.enabled = false ∨ turn.host.inResetTooLong = true
      · refine ⟨fun _ => handleVfCmd_denied haccepted hdenied, fun _ _ => ?_⟩
        intro _ henabled hreset vfCmd hcmd
        rcases hdenied vfCmd hcmd with hdisabled | hlong
        · exact Bool.noConfusion (henabled.symm.trans hdisabled)
        · exact Bool.noConfusion (hreset.symm.trans hlong)
      · rw [not_forall] at hdenied
        obtain ⟨vfCmd, hdenied⟩ := hdenied
        rw [Classical.not_imp, not_or, Bool.not_eq_false, Bool.not_eq_true] at hdenied
        obtain ⟨hcmd, henabled, hreset⟩ := hdenied
        obtain ⟨cmd, hid, hres, hcall⟩ := @handleVfCmd_dispatched table idxVf turn turns gpaAddr
          gpaSize haccepted henabled hreset vfCmd hcmd
        obtain ⟨haccesses, hreturned⟩ := @dispatched_accesses table idxVf turn turns gpaAddr gpaSize
          haccepted vfCmd
        have hreply := @reply_contained table idxVf turn turns gpaAddr gpaSize haccepted vfCmd hcmd
          cmd hid hres
        have hfetch : (Access.copyFromVf gpaAddr ctxSize).Contained table :=
          haccepted.holds (BitVec.not_lt.mp haccepted.large)
        have hnested := ih (field64 turn.cmd.input 16) (field32 turn.cmd.input 24)
        constructor
        · intro hfits
          obtain ⟨hbuf, hguest, hcper, hnests⟩ := hfits haccepted henabled hreset vfCmd hcmd
          have hinner := haccesses.mpr ⟨hcper, fun hn => hnested.1 (hnests hn)⟩
          rw [hcall]
          split
          · exact List.forall_mem_cons.mpr ⟨hfetch, hinner⟩
          · refine List.forall_mem_append.mpr ⟨List.forall_mem_cons.mpr ⟨hfetch, hinner⟩, ?_⟩
            exact List.forall_mem_singleton.mpr (hreply.mpr ⟨hbuf, hguest⟩)
        · intro hsome hall
          rw [hcall] at hsome hall
          split at hsome
          · cases hsome
          · rename_i hback
            rw [if_neg hback] at hall
            obtain ⟨hfront, hlast⟩ := List.forall_mem_append.mp hall
            obtain ⟨hcper, hnests⟩ := haccesses.mp (List.forall_mem_cons.mp hfront).2
            obtain ⟨hbuf, hguest⟩ := hreply.mp (List.forall_mem_singleton.mp hlast)
            have hback' : (dispatched table idxVf turn turns gpaSize vfCmd).returned = true := by
              simpa using hback
            intro _ _ _ vfCmd' hcmd'
            rw [hcmd] at hcmd'
            cases hcmd'
            exact ⟨hbuf, hguest, hcper, fun hn =>
              hnested.2 (hreturned.mp hback' hn) (hnests hn)⟩
    · refine ⟨fun _ => handleVfCmd_refused haccepted, fun _ _ h => absurd h haccepted⟩

/-- The host stays in the RAS telemetry table of the VF and in the guest's buffer, and does not
report success for what its own buffer cannot hold, exactly when the response fits; for a call
that has not returned yet, as far as it has come. -/
theorem rasVf_contained :
    ∀ (table : VfTable) (idxVf : BitVec 32) (turns : List Turn) (gpaAddr : BitVec 64)
      (gpaSize : BitVec 32),
      (Fits table idxVf turns gpaAddr gpaSize →
          ∀ access ∈ (amdgvRasHandleVfCmd table idxVf turns gpaAddr gpaSize).1,
            access.Contained table) ∧
        ((amdgvRasHandleVfCmd table idxVf turns gpaAddr gpaSize).2.isSome →
          (∀ access ∈ (amdgvRasHandleVfCmd table idxVf turns gpaAddr gpaSize).1,
            access.Contained table) → Fits table idxVf turns gpaAddr gpaSize) :=
  fun _ _ turns gpaAddr gpaSize => handleVfCmd_contained turns gpaAddr gpaSize

end Calls

def plainHost : Host where
  rasMgr := true
  enabled := true
  inResetTooLong := false
  numVf := 1
  rasCaps := 0
  vfSlot _ := 0
  fbOffset := 0x100
  fbSize := 0x1000
  ecc _ := none
  baseline _ := ⟨0, 0, 0⟩
  startRptr := 0
  badPages := []
  firstBatch := 0
  lastBatch := 0
  batchRecords _ := []
  cper _ := ⟨0, 0⟩
  rowPages _ _ := []
  maxPagesPerRow := 16
  critical _ := false
  rowsAllocated := true
  traceAllocated := true
  accessOk _ _ := false
  bufAllocated := none
  copiedToUser := false

/-- `RAS_CMD__GET_CPER_SNAPSHOT`. -/
def snapshotTurn : Turn :=
  ⟨plainHost, true, true, ⟨[], 11, 0, 8, 0, 0, fun _ => 0, .zeros⟩, false, true⟩

theorem v1Offset_inside : (0x11000#64).toNat + 0x10000 ≤ 2 ^ 64 := by decide

def v1Table : VfTable := ⟨0x11000, 64, .inr rfl, v1Offset_inside⟩

/-- A snapshot into a page of the table. -/
theorem rasVf_contained_page :
    ∀ access ∈ (amdgvRasHandleVfCmd v1Table 0 [snapshotTurn] 0x11000 0x1000).1,
      access.Contained v1Table := by
  apply (rasVf_contained v1Table 0 [snapshotTurn] 0x11000 0x1000).1
  intro _ _ _ vfCmd hcmd
  cases hcmd
  exact ⟨by decide, fun _ => by decide, VfCmd.noConfusion, fun h => VfCmd.noConfusion h.1⟩

/-- The guest's buffer is the last 304 bytes of the table, and the response is 40 bytes more. -/
theorem rasVf_outside : ¬ ∀ (table : VfTable) (idxVf : BitVec 32) (turns : List Turn)
    (gpaAddr : BitVec 64) (gpaSize : BitVec 32),
    ∀ access ∈ (amdgvRasHandleVfCmd table idxVf turns gpaAddr gpaSize).1,
      access.Contained table := by
  intro hall
  have hfits := (rasVf_contained v1Table 0 [snapshotTurn] 0x20ED0 304).2 rfl
    (hall v1Table 0 [snapshotTurn] 0x20ED0 304)
  have haccepted : Accepted v1Table 0 snapshotTurn 0x20ED0 304 :=
    ⟨by decide, by decide, by decide, by decide, rfl, by decide, rfl, rfl⟩
  have hguest := (hfits haccepted rfl rfl .getCperSnapshot rfl).2.1 rfl
  exact absurd hguest (by decide)

end MxGpu.RasVf
