import MxGpu.RasV21Ops
import MxGpu.Transition

/- The host driver's table over runs: what the control says is what the EEPROM has. -/
namespace MxGpu.RasV21

open ByteStore
open Ras (Record TableHeader u32)

/-- The table, with the records that it should have: those of each append that came back with
success. -/
structure Sys where
  table : Table
  appended : List Record

inductive Event where
  | reset (xfers : Xfers)
  | append (records : List Record) (xfers : Xfers)
  | read (num : Nat) (xfers : Xfers)
  /-- the fix-up of an initialisation, with the records that it has read -/
  | fixUp (forceWrite : Bool) (bpCache : List Record) (xfers : FixXfers)
  /-- `adapt->bp_msg_type` is set in between -/
  | message (bpMsgType : BpMsg)

def next (env : Env) (s : Sys) : Event → Sys
  | .reset xfers => ⟨(resetTable env xfers s.table).2, []⟩
  | .append records xfers =>
    let r := processWrite env xfers records s.table
    ⟨r.2, if r.1 then s.appended ++ records else s.appended⟩
  | .read num xfers => { s with table := (processRead xfers num s.table).2 }
  | .fixUp forceWrite bpCache xfers =>
    { s with table := fixOverwriteTable env xfers forceWrite bpCache s.table }
  | .message bpMsgType => { s with table := { s.table with bpMsgType := bpMsgType } }

/-- The bytes of the table in the EEPROM up to record `k`, less its checksum. -/
def tableSum (rom : Store) (k : Nat) : Nat :=
  byteSum (read rom 0 16) +
    byteSum (read rom eepromTableV21ExtraGpuInfoStart
      (eepromTableTotalExtraInfoSize + k * eepromTableRecordSize))

/-- The table in the EEPROM is the control's, with all records, inside the EEPROM. -/
structure Integrity (s : Sys) : Prop where
  header : read s.table.rom 0 eepromTableHeaderSize = s.table.control.tblHdr.toBuf
  extra : read s.table.rom eepromTableV21ExtraGpuInfoStart eepromTableTotalExtraInfoSize =
    s.table.control.tblEgi.bytes
  numRecs : s.table.control.numRecs = s.appended.length
  /-- the sum is that of what the control has gone through -/
  tblByteSum : ∃ k ≤ s.appended.length, s.table.control.nextAddr = recordAddr k ∧
    s.table.control.tblByteSum = tableSum s.table.rom k
  checksum : s.table.control.tblHdr.checksum + tableSum s.table.rom s.appended.length % 256 = 256
  reads : ∀ xfers : Xfers, xfers.Succeed →
    (processRead xfers s.table.control.numRecs (resetReadControl s.table)).1 =
      some (s.appended.map Record.stored)
  reach : s.table.reach ≤ eepromSizeBytes

/-- When a step keeps the table: its transfers succeed (or the first record's does not, and nothing
is done), an append comes behind the records and has room for all of its own, a read begins at the
first record, and a fix-up has the records of the table, of different pages. -/
def StepOk (s : Sys) : Event → Prop
  | .reset xfers => xfers.Succeed
  | .append records xfers =>
    (xfers.Succeed ∧ s.table.control.nextAddr = recordAddr s.table.control.numRecs ∧
      s.table.control.numRecs + records.length ≤ s.table.control.maxRecordNum) ∨
    records ≠ [] ∧ xfers.record 0 = false
  | .read num xfers =>
    (xfers.Succeed ∧ s.table.control.nextAddr = eepromRecordStartV21 ∧
      num ≤ s.table.control.numRecs) ∨
    num ≠ 0 ∧ xfers.record 0 = false
  | .fixUp _ bpCache xfers =>
    xfers.Succeed ∧ bpCache = s.appended.map Record.stored ∧
      bpCache.Pairwise fun a b => a.retiredRowPfn ≠ b.retiredRowPfn
  | .message _ => True

def Start (s : Sys) : Prop := Valid s.table s.appended

section Sums

variable {t : Table} {records : List Record} {s : Sys}

theorem Intact.tableSum (h : Intact t records) {k : Nat} (hk : k ≤ records.length) :
    tableSum t.rom k = calcTblByteSum t.control (records.take k) := by
  have hroom : (records.take k).length ≤ maxRecordNumV21 + 1 :=
    Nat.le_trans (List.length_take_le' ..) h.room
  have hheader : read t.rom 0 16 = t.control.tblHdr.toBuf.take 16 := by
    have hwhole := h.header
    rw [show eepromTableHeaderSize = 16 + 4 by rfl, read_add] at hwhole
    rw [← hwhole]
    exact (List.take_left' read_length).symm
  have hsize : ∀ c ∈ records.map Record.toBuf, c.length = eepromTableRecordSize := by
    intro c hc
    obtain ⟨record, _, rfl⟩ := List.mem_map.mp hc
    exact record_length record
  have hcells : read t.rom eepromRecordStartV21 (k * eepromTableRecordSize) =
      ((records.take k).map Record.toBuf).flatten := by
    have hsplit : records.length * eepromTableRecordSize =
        k * eepromTableRecordSize + (records.length - k) * eepromTableRecordSize := by
      rw [← Nat.add_mul, Nat.add_sub_cancel' hk]
    have hwhole := h.cells
    rw [hsplit, read_add] at hwhole
    rw [List.map_take, ← take_flatten hsize, ← hwhole]
    exact (List.take_left' read_length).symm
  unfold RasV21.tableSum
  rw [read_add, byteSum_append, h.extra, hheader, calcTblByteSum_eq hroom, ← Nat.add_assoc]
  congr 1
  exact congrArg byteSum hcells

theorem UpTo.of_nextAddr {k n : Nat} (h : UpTo t records k)
    (hnext : t.control.nextAddr = recordAddr n) : k = n := by
  have haddr := h.nextAddr
  rw [hnext] at haddr
  unfold recordAddr eepromTableRecordSize at haddr
  omega

theorem Valid.integrity (h : Valid s.table s.appended) : Integrity s := by
  obtain ⟨k, hposition⟩ := h.position
  have hwhole := h.intact.tableSum (Nat.le_refl _)
  rw [List.take_length] at hwhole
  refine ⟨h.intact.header, h.intact.extra, h.intact.numRecs,
    ⟨k, hposition.le, hposition.nextAddr, ?_⟩, ?_, ?_, h.reach⟩
  · rw [h.intact.tableSum hposition.le]
    exact hposition.tblByteSum
  · rw [hwhole, h.intact.checksum]
    omega
  · intro xfers hxfers
    obtain ⟨t', hread, _⟩ := processRead_layout hxfers
      (resetReadControl_spec h.intact).1.toLayout rfl (Nat.le_refl _)
    rw [h.intact.numRecs, hread, List.take_length]

end Sums

section Steps

variable {env : Env} {s : Sys}

theorem first_fails {xfers : Xfers} (h : xfers.record 0 = false) {t : Table} {k : Nat}
    (hat : At t k) (hk : k ≤ maxRecordNumV21) :
    (∀ record rest, processWrite env xfers (record :: rest) t = (false, t)) ∧
      ∀ num, processRead xfers (num + 1) t = (none, t) := by
  have hroom : entryOverflow t.control = false := by
    rw [hat.entryOverflow]
    exact decide_eq_false (Nat.not_lt.mpr hk)
  constructor
  · intro record rest
    unfold processWrite
    simp [writeRecords, hroom, h]
  · intro num
    unfold processRead
    simp [readRecords, hroom, h]

theorem Valid.at {t : Table} {records : List Record} (h : Valid t records) :
    ∃ k ≤ maxRecordNumV21, At t k := by
  obtain ⟨k, hposition⟩ := h.position
  have hk : k ≤ maxRecordNumV21 := Nat.le_trans hposition.le h.room
  exact ⟨k, hk, hposition.nextAddr, h.intact.first, h.intact.max, Nat.le_succ_of_le hk⟩

theorem reset_valid (hvalid : Valid s.table s.appended) {xfers : Xfers} (hxfers : xfers.Succeed) :
    Valid (resetTable env xfers s.table).2 [] := by
  obtain ⟨_, hintact, hend, hreach⟩ := resetTable_spec (t := s.table) env hxfers
  have hfits : eepromRecordStartV21 ≤ eepromSizeBytes := by decide
  have := hvalid.reach
  exact ⟨hintact, ⟨0, hend.upTo⟩, Nat.zero_le _, by omega⟩

theorem append_valid (hvalid : Valid s.table s.appended) {records : List Record} {xfers : Xfers}
    (hxfers : xfers.Succeed)
    (hnext : s.table.control.nextAddr = recordAddr s.table.control.numRecs)
    (hroom : s.table.control.numRecs + records.length ≤ s.table.control.maxRecordNum) :
    (processWrite env xfers records s.table).1 = true ∧
      Valid (processWrite env xfers records s.table).2 (s.appended ++ records) := by
  obtain ⟨k, hposition⟩ := hvalid.position
  have hintact := hvalid.intact
  rw [hintact.numRecs] at hnext hroom
  rw [hintact.max] at hroom
  have hend : AtEnd s.table s.appended := by
    have hk := hposition.of_nextAddr hnext
    have hsum := hposition.tblByteSum
    rw [hk, List.take_length] at hsum
    exact ⟨hnext, hsum⟩
  obtain ⟨hdone, hwritten, hbehind, hreach⟩ :=
    processWrite_spec env hxfers hintact.toLayout hintact.reserved hend records
  rw [List.take_of_length_le (by omega)] at hwritten hbehind hreach
  have hlength : (s.appended ++ records).length ≤ maxRecordNumV21 := by
    rw [List.length_append]
    exact hroom
  have hfits := recordAddr_le hlength
  have := hvalid.reach
  exact ⟨hdone, hwritten, ⟨_, hbehind.upTo⟩, hlength, by omega⟩

theorem read_valid (hvalid : Valid s.table s.appended) {num : Nat} {xfers : Xfers}
    (hxfers : xfers.Succeed) (hnext : s.table.control.nextAddr = eepromRecordStartV21)
    (hnum : num ≤ s.table.control.numRecs) :
    Valid (processRead xfers num s.table).2 s.appended := by
  rw [hvalid.intact.numRecs] at hnum
  obtain ⟨t', hrun, hread⟩ := processRead_layout hxfers hvalid.intact.toLayout hnext hnum
  obtain ⟨hintact, hposition⟩ := hread.intact hvalid.intact hnum
  rw [hrun]
  exact ⟨hintact, ⟨num, hposition⟩, hvalid.room, hread.reach ▸ hvalid.reach⟩

theorem fixUp_valid (hvalid : Valid s.table s.appended) {xfers : FixXfers}
    (hxfers : xfers.Succeed) (forceWrite : Bool)
    (hdistinct : (s.appended.map Record.stored).Pairwise fun a b =>
      a.retiredRowPfn ≠ b.retiredRowPfn) :
    Valid (fixOverwriteTable env xfers forceWrite (s.appended.map Record.stored) s.table)
      s.appended := by
  obtain ⟨hintact, hrewound, hreach⟩ :=
    fixOverwriteTable_spec env hxfers hvalid.intact.toLayout forceWrite
  rw [removeDups_distinct hdistinct] at hintact
  have hfits := recordAddr_le hvalid.room
  have := hvalid.reach
  exact ⟨hintact.congr (toBuf_map_stored s.appended).symm, ⟨0, hrewound.upTo⟩, hvalid.room,
    by omega⟩

theorem next_valid {e : Event} (hvalid : Valid s.table s.appended) (hok : StepOk s e) :
    Valid (next env s e).table (next env s e).appended := by
  obtain ⟨k, hk, hat⟩ := hvalid.at
  cases e with
  | reset xfers => exact reset_valid hvalid hok
  | append records xfers =>
    rcases hok with ⟨hxfers, hnext, hroom⟩ | ⟨hsome, hfails⟩
    · obtain ⟨hdone, hafter⟩ := append_valid hvalid hxfers hnext hroom
      unfold next
      dsimp only
      rw [if_pos hdone]
      exact hafter
    · obtain ⟨record, rest, rfl⟩ := List.exists_cons_of_ne_nil hsome
      unfold next
      dsimp only
      rw [(first_fails hfails hat hk).1]
      exact hvalid
  | read num xfers =>
    rcases hok with ⟨hxfers, hnext, hnum⟩ | ⟨hsome, hfails⟩
    · exact read_valid hvalid hxfers hnext hnum
    · obtain ⟨rest, rfl⟩ := Nat.exists_eq_succ_of_ne_zero hsome
      unfold next
      dsimp only
      rw [(@first_fails env _ hfails _ _ hat hk).2]
      exact hvalid
  | fixUp forceWrite bpCache xfers =>
    obtain ⟨hxfers, rfl, hdistinct⟩ := hok
    exact fixUp_valid hvalid hxfers forceWrite hdistinct
  | message bpMsgType =>
    obtain ⟨⟨hlayout, hheader, hextra, hchecksum⟩, ⟨k, hposition⟩, hroom, hreach⟩ := hvalid
    exact ⟨⟨⟨hlayout.cells, hlayout.room, hlayout.numRecs, hlayout.max, hlayout.first,
      hlayout.tblSize⟩, hheader, hextra, hchecksum⟩,
      ⟨k, hposition.le, hposition.nextAddr, hposition.tblByteSum⟩, hroom, hreach⟩

end Steps

section Runs

def step (env : Env) (s : Sys) (e : Event) (s' : Sys) : Prop := s' = next env s e

/-- In every run from a valid table whose steps are in order, the table in the EEPROM is the one of
the control, and has all records of the appends that came back with success. -/
theorem table_integrity (env : Env) (s : Sys) (hrun : Transition.Run Start (step env) StepOk s) :
    Integrity s := by
  have hvalid : Start s := by
    apply hrun.invariant Start
    · intro s hstart
      exact hstart
    · intro before e after hvalid hok hstep
      rw [hstep]
      exact next_valid hvalid hok
  exact Valid.integrity hvalid

def defaultEnv : Env := ⟨10, false, false⟩

def goodXfers : Xfers := ⟨fun _ => true, true, true⟩

theorem goodXfers_succeed : goodXfers.Succeed := ⟨fun _ => rfl, rfl, rfl⟩

def blankTable : Table where
  rom := fun _ => 0
  reach := 0
  control := ⟨⟨0, 0, 0, 0, 0⟩, ⟨0, 0, 0⟩, 0, 0, 0, 0, 0⟩
  bpMsgType := .invalid
  updateChannelFlag := false

def freshTable : Sys := ⟨(resetTable defaultEnv goodXfers blankTable).2, []⟩

theorem freshTable_start : Start freshTable := by
  obtain ⟨_, hintact, hend, hreach⟩ :=
    resetTable_spec (t := blankTable) defaultEnv goodXfers_succeed
  exact ⟨hintact, ⟨0, hend.upTo⟩, Nat.zero_le _, Nat.le_trans hreach (by decide)⟩

theorem freshTable_end : AtEnd freshTable.table freshTable.appended :=
  (resetTable_spec defaultEnv goodXfers_succeed).2.2.1

def onePage : Record := ⟨2, 1, 0, 0x1000, 3, 4, 0x77⟩

def otherPage : Record := { onePage with retiredRowPfn := 0x88 }

/-- Two records at once, one more whose transfer fails, and the same again. -/
theorem table_integrity_three : ∃ s : Sys, Transition.Run Start (step defaultEnv) StepOk s ∧
    Integrity s ∧ s.appended = [onePage, otherPage, onePage] := by
  have h0 : Transition.Run Start (step defaultEnv) StepOk freshTable := .start freshTable_start
  have h1 : Transition.Run Start (step defaultEnv) StepOk _ :=
    .next (.append [onePage, otherPage] goodXfers) h0 (.inl ⟨goodXfers_succeed, rfl, by decide⟩) rfl
  have h2 : Transition.Run Start (step defaultEnv) StepOk _ :=
    .next (.append [onePage] { goodXfers with record := fun _ => false }) h1
      (.inr ⟨List.cons_ne_nil _ _, rfl⟩) rfl
  have h3 : Transition.Run Start (step defaultEnv) StepOk _ :=
    .next (.append [onePage] goodXfers) h2 (.inl ⟨goodXfers_succeed, rfl, by decide⟩) rfl
  exact ⟨_, h3, table_integrity defaultEnv _ h3, rfl⟩

theorem append_counts {env : Env} {s : Sys} (hvalid : Valid s.table s.appended)
    (hend : AtEnd s.table s.appended) {xfers : Xfers} (hxfers : xfers.Succeed)
    (records : List Record) :
    (next env s (.append records xfers)).appended.length =
        s.appended.length + records.length ∧
      (next env s (.append records xfers)).table.control.numRecs =
        min (s.appended.length + records.length) (maxRecordNumV21 + 1) := by
  obtain ⟨hdone, hwritten, _⟩ := processWrite_spec env hxfers
    hvalid.intact.toLayout hvalid.intact.reserved hend records
  have hroom := hvalid.intact.room
  unfold next
  dsimp only
  constructor
  · rw [if_pos hdone, List.length_append]
  · rw [hwritten.numRecs, List.length_append, List.length_take]
    omega

/-- Two records more than the table has room for: success, the first of them written too far for the
EEPROM, and the other not written. -/
theorem table_overflows : ¬ ∀ (env : Env) (s : Sys),
    Transition.Run Start (step env) Transition.always s → Integrity s := by
  intro h
  have h0 : Transition.Run Start (step defaultEnv) Transition.always freshTable :=
    .start freshTable_start
  have h1 : Transition.Run Start (step defaultEnv) Transition.always _ :=
    .next (.append (List.replicate (maxRecordNumV21 + 2) onePage) goodXfers) h0 trivial rfl
  have hcount := (h _ _ h1).numRecs
  obtain ⟨hall, hcounted⟩ := append_counts freshTable_start freshTable_end
    goodXfers_succeed (List.replicate (maxRecordNumV21 + 2) onePage)
  rw [hall, hcounted, List.length_replicate] at hcount
  omega

end Runs

end MxGpu.RasV21
