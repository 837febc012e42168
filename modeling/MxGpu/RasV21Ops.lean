import MxGpu.RasV21

/- The operations of the host driver's table: what each leaves of the control and of the EEPROM. -/
namespace MxGpu.RasV21

open ByteStore List
open Ras (Record TableHeader u32)

section Bytes

theorem byteSum_append (a b : List UInt8) : byteSum (a ++ b) = byteSum a + byteSum b := by
  unfold byteSum
  rw [map_append, sum_append]

theorem byteSum_le (bytes : List UInt8) : byteSum bytes ≤ 255 * bytes.length := by
  induction bytes with
  | nil => exact Nat.le_refl 0
  | cons b rest ih =>
    have hb : b.toNat < 256 := b.toNat_lt
    show b.toNat + byteSum rest ≤ 255 * (rest.length + 1)
    omega

@[simp] theorem toBuff_length (egi : ExtraGpuInfo) : egi.toBuff.length = 4 := by
  simp [ExtraGpuInfo.toBuff]

@[simp] theorem bytes_length (egi : ExtraGpuInfo) : egi.bytes.length = 256 := by
  simp only [ExtraGpuInfo.bytes, length_append, toBuff_length, length_replicate]

theorem record_length (record : Record) : record.toBuf.length = eepromTableRecordSize :=
  Record.toBuf_length record

theorem records_length (records : List Record) :
    (records.map Record.toBuf).flatten.length = records.length * eepromTableRecordSize := by
  rw [flatten_length, length_map]
  intro c hc
  obtain ⟨record, _, rfl⟩ := mem_map.mp hc
  exact record_length record

theorem calcHdrByteSum_le (c : Control) : calcHdrByteSum c ≤ 4080 := by
  have h := byteSum_le (c.tblHdr.toBuf.take 16)
  have hlength : (c.tblHdr.toBuf.take 16).length ≤ 16 := length_take_le ..
  show byteSum (c.tblHdr.toBuf.take 16) ≤ 4080
  omega

theorem calcExtraInfoByteSum_le (c : Control) : calcExtraInfoByteSum c ≤ 65280 := by
  have h := byteSum_le c.tblEgi.bytes
  rw [bytes_length] at h
  show byteSum c.tblEgi.bytes ≤ 65280
  omega

theorem calcRecsByteSum_append (a b : List Record) :
    calcRecsByteSum (a ++ b) = calcRecsByteSum a + calcRecsByteSum b := by
  unfold calcRecsByteSum
  rw [map_append, flatten_append, byteSum_append]

@[simp] theorem calcRecsByteSum_nil : calcRecsByteSum [] = 0 := rfl

theorem leBytes_mod (w value : Nat) : leBytes w (value % 256 ^ w) = leBytes w value := by
  induction w generalizing value with
  | zero => rfl
  | succ w ih =>
    have hdiv : value % 256 ^ (w + 1) / 256 = value / 256 % 256 ^ w := by
      rw [Nat.pow_succ', Nat.mod_mul_right_div_self]
    have hlow : UInt8.ofNat (value % 256 ^ (w + 1)) = UInt8.ofNat value := by
      apply UInt8.toNat_inj.mp
      rw [UInt8.toNat_ofNat', UInt8.toNat_ofNat', Nat.pow_succ', Nat.mod_mul_right_mod]
    rw [leBytes, leBytes, hdiv, hlow, ih]

theorem toBuf_stored (record : Record) : record.stored.toBuf = record.toBuf := by
  have hsix : ∀ value : UInt64,
      leBytes 6 (UInt64.ofNat (value.toNat % 2 ^ 48)).toNat = leBytes 6 value.toNat := by
    intro value
    have hlt : value.toNat % 2 ^ 48 < 2 ^ 64 := by omega
    rw [UInt64.toNat_ofNat', Nat.mod_eq_of_lt hlt]
    exact leBytes_mod 6 value.toNat
  unfold Record.toBuf Record.stored
  simp only [hsix]

theorem calcRecsByteSum_stored (records : List Record) :
    calcRecsByteSum (records.map Record.stored) = calcRecsByteSum records := by
  unfold calcRecsByteSum
  rw [map_map]
  congr 3
  funext record
  exact toBuf_stored record

end Bytes

section Loops

variable {xfers : Xfers} {t : Table}

structure Xfers.Succeed (xfers : Xfers) : Prop where
  record : ∀ i, xfers.record i = true
  header : xfers.header = true
  extra : xfers.extra = true

/-- The byte behind record `k` slots into the record area. -/
def recordAddr (k : Nat) : Nat := eepromRecordStartV21 + k * eepromTableRecordSize

theorem maxRecordNumV21_eq : maxRecordNumV21 = 10655 := rfl

/-- The table's records begin where the loops believe, and the next one is record `k`. -/
structure At (t : Table) (k : Nat) : Prop where
  nextAddr : t.control.nextAddr = recordAddr k
  first : t.control.tblHdr.firstRecOffset = eepromRecordStartV21
  max : t.control.maxRecordNum = maxRecordNumV21
  small : k ≤ maxRecordNumV21 + 1

theorem recordAddr_lt {k : Nat} (hk : k ≤ maxRecordNumV21 + 1) : recordAddr k < 2 ^ 31 := by
  have hmax := maxRecordNumV21_eq
  unfold recordAddr eepromRecordStartV21 eepromTableHeaderSize eepromTableTotalExtraInfoSize
    eepromTableRecordSize
  omega

theorem At.entryOverflow {k : Nat} (h : At t k) :
    entryOverflow t.control = decide (maxRecordNumV21 < k) := by
  have haddr := recordAddr_lt h.small
  have hindex : u32 (recordAddr k + (2 ^ 32 - eepromRecordStartV21)) / eepromTableRecordSize = k := by
    unfold recordAddr u32 eepromRecordStartV21 eepromTableHeaderSize eepromTableTotalExtraInfoSize
      eepromTableRecordSize at *
    omega
  unfold RasV21.entryOverflow
  rw [h.nextAddr, h.first, h.max, hindex]

theorem noteChannel_eq (record : Record) (t : Table) :
    ∃ bitmap flag, noteChannel record t =
      { t with
        control := { t.control with badChannelBitmap := bitmap }
        updateChannelFlag := flag } := by
  unfold noteChannel
  split
  · exact ⟨_, _, rfl⟩
  · exact ⟨_, _, rfl⟩

/-- What the loop that writes leaves: records from index `k` on, and the next address behind. -/
structure WrittenTo (t t' : Table) (k : Nat) (records : List Record) : Prop where
  rom : t'.rom = writeCells t.rom eepromRecordStartV21 eepromTableRecordSize k
    (records.map Record.toBuf)
  reach : t'.reach = if records = [] then t.reach else max t.reach (recordAddr (k + records.length))
  control : ∃ bitmap, t'.control =
    { t.control with nextAddr := recordAddr (k + records.length), badChannelBitmap := bitmap }
  bpMsgType : t'.bpMsgType = t.bpMsgType

theorem WrittenTo.refl {k : Nat} (h : At t k) : WrittenTo t t k [] := by
  refine ⟨write_nil.symm, rfl, ⟨t.control.badChannelBitmap, ?_⟩, rfl⟩
  rw [length_nil, Nat.add_zero, ← h.nextAddr]

theorem recordAddr_succ (k : Nat) : recordAddr (k + 1) = recordAddr k + eepromTableRecordSize := by
  unfold recordAddr
  rw [Nat.succ_mul, Nat.add_assoc]

theorem writeRecord_written {k : Nat} (h : At t k) (hk : k ≤ maxRecordNumV21) (record : Record) :
    WrittenTo t (writeRecord record t) k [record] ∧ At (writeRecord record t) (k + 1) := by
  have hnext : u32 (t.control.nextAddr + eepromTableRecordSize) = recordAddr (k + 1) := by
    rw [h.nextAddr, ← recordAddr_succ]
    have := recordAddr_lt (k := k + 1) (by omega)
    exact Nat.mod_eq_of_lt (by omega)
  obtain ⟨bitmap, flag, hnote⟩ := noteChannel_eq record
    { t.put t.control.nextAddr record.toBuf with
      control := { t.control with nextAddr := u32 (t.control.nextAddr + eepromTableRecordSize) } }
  have hwrite : writeRecord record t =
      { t.put t.control.nextAddr record.toBuf with
        control := { t.control with
          nextAddr := recordAddr (k + 1)
          badChannelBitmap := bitmap }
        updateChannelFlag := flag } := by
    rw [← hnext]
    exact hnote
  rw [hwrite]
  refine ⟨⟨?_, ?_, ⟨bitmap, rfl⟩, rfl⟩, rfl, h.first, h.max, by omega⟩
  · show write t.rom t.control.nextAddr record.toBuf = _
    rw [h.nextAddr]
    unfold writeCells recordAddr
    simp
  · show max t.reach (t.control.nextAddr + record.toBuf.length) = _
    rw [h.nextAddr, Record.toBuf_length]
    simp only [cons_ne_nil, if_false, length_singleton, recordAddr_succ]
    rfl

theorem WrittenTo.trans {t' t'' : Table} {k : Nat} {record : Record} {records : List Record}
    (h : WrittenTo t t' k [record]) (h' : WrittenTo t' t'' (k + 1) records) :
    WrittenTo t t'' k (record :: records) := by
  obtain ⟨bitmap, hcontrol⟩ := h.control
  obtain ⟨bitmap', hcontrol'⟩ := h'.control
  have hone : k + 1 + records.length = k + (record :: records).length := by
    rw [length_cons]
    omega
  refine ⟨?_, ?_, ⟨bitmap', ?_⟩, h'.bpMsgType.trans h.bpMsgType⟩
  · have hfirst : writeCells t.rom eepromRecordStartV21 eepromTableRecordSize k
        ([record].map Record.toBuf) =
          write t.rom (eepromRecordStartV21 + k * eepromTableRecordSize) record.toBuf := by
      simp [writeCells]
    rw [h'.rom, h.rom, hfirst, map_cons, writeCells_cons (record_length record)]
  · rw [h'.reach, h.reach]
    have hle : recordAddr (k + 1) ≤ recordAddr (k + 1 + records.length) := by
      unfold recordAddr
      have := Nat.mul_le_mul_right eepromTableRecordSize (Nat.le_add_right (k + 1) records.length)
      omega
    by_cases hempty : records = []
    · subst hempty
      simp
    · rw [if_neg hempty, if_neg (cons_ne_nil _ _), if_neg (cons_ne_nil _ _), ← hone,
        length_singleton]
      omega
  · rw [hcontrol', hcontrol, hone]

theorem writeRecords_spec (hxfers : xfers.Succeed) (i : Nat) {k : Nat} (h : At t k)
    (records : List Record) :
    ∃ t', writeRecords xfers i records t =
        (some (i + (records.take (maxRecordNumV21 + 1 - k)).length), t') ∧
      WrittenTo t t' k (records.take (maxRecordNumV21 + 1 - k)) := by
  induction records generalizing t i k with
  | nil =>
    rw [take_nil]
    exact ⟨t, rfl, .refl h⟩
  | cons record rest ih =>
    rw [writeRecords, h.entryOverflow]
    by_cases hk : maxRecordNumV21 < k
    · have hnone : maxRecordNumV21 + 1 - k = 0 := by omega
      rw [hnone]
      refine ⟨t, ?_, .refl h⟩
      simp [hk]
    · obtain ⟨hfirst, hat⟩ := writeRecord_written h (by omega) record
      obtain ⟨t', hrun, hrest⟩ := ih (i + 1) hat
      have hsome : maxRecordNumV21 + 1 - k = maxRecordNumV21 + 1 - (k + 1) + 1 := by omega
      refine ⟨t', ?_, ?_⟩
      · rw [hxfers.record i, hsome, take_succ_cons, length_cons]
        simp only [hk, decide_false, Bool.false_eq_true, if_false, if_true]
        rw [hrun]
        congr 2
        omega
      · rw [hsome, take_succ_cons]
        exact hfirst.trans hrest

structure ReadTo (t t' : Table) (k num : Nat) : Prop where
  rom : t'.rom = t.rom
  reach : t'.reach = t.reach
  control : ∃ bitmap, t'.control =
    { t.control with nextAddr := recordAddr (k + num), badChannelBitmap := bitmap }
  bpMsgType : t'.bpMsgType = t.bpMsgType

theorem readRecord_spec {k : Nat} (h : At t k) (hk : k ≤ maxRecordNumV21) :
    (readRecord t).1 =
        Record.ofBuf (cell t.rom eepromRecordStartV21 eepromTableRecordSize k) ∧
      ReadTo t (readRecord t).2 k 1 ∧ At (readRecord t).2 (k + 1) := by
  have hnext : u32 (t.control.nextAddr + eepromTableRecordSize) = recordAddr (k + 1) := by
    rw [h.nextAddr, ← recordAddr_succ]
    have := recordAddr_lt (k := k + 1) (by omega)
    exact Nat.mod_eq_of_lt (by omega)
  obtain ⟨bitmap, flag, hnote⟩ := noteChannel_eq
    (Record.ofBuf (read t.rom t.control.nextAddr eepromTableRecordSize))
    { t with
      control := { t.control with nextAddr := u32 (t.control.nextAddr + eepromTableRecordSize) } }
  have hread : (readRecord t).2 =
      { t with
        control := { t.control with
          nextAddr := recordAddr (k + 1)
          badChannelBitmap := bitmap }
        updateChannelFlag := flag } := by
    rw [← hnext]
    exact hnote
  rw [hread]
  refine ⟨?_, ⟨rfl, rfl, ⟨bitmap, rfl⟩, rfl⟩, rfl, h.first, h.max, by omega⟩
  show Record.ofBuf (read t.rom t.control.nextAddr eepromTableRecordSize) = _
  rw [h.nextAddr]
  rfl

theorem readRecords_spec (hxfers : xfers.Succeed) (i : Nat) {k num : Nat} (h : At t k)
    (hroom : k + num ≤ maxRecordNumV21 + 1) :
    ∃ t', readRecords xfers i num t =
        (some ((range num).map fun j =>
          Record.ofBuf (cell t.rom eepromRecordStartV21 eepromTableRecordSize (k + j))), t') ∧
      ReadTo t t' k num := by
  induction num generalizing t i k with
  | zero =>
    refine ⟨t, rfl, rfl, rfl, ⟨t.control.badChannelBitmap, ?_⟩, rfl⟩
    rw [Nat.add_zero, ← h.nextAddr]
  | succ num ih =>
    obtain ⟨hfirst, hstep, hat⟩ := readRecord_spec h (by omega)
    obtain ⟨t', hrun, hrest⟩ := ih (i + 1) hat (by omega)
    obtain ⟨bitmap, hcontrol⟩ := hstep.control
    obtain ⟨bitmap', hcontrol'⟩ := hrest.control
    refine ⟨t', ?_, ?_⟩
    · have hk : ¬ maxRecordNumV21 < k := by omega
      rw [readRecords, h.entryOverflow, hxfers.record i]
      simp only [hk, decide_false, Bool.false_eq_true, if_false, if_true, hrun, Option.map_some]
      rw [hfirst, hstep.rom, range_succ_eq_map, map_cons, map_map]
      congr 3
      apply map_congr_left
      intro j _
      show Record.ofBuf (cell t.rom _ _ (k + 1 + j)) = Record.ofBuf (cell t.rom _ _ (k + (j + 1)))
      rw [show k + 1 + j = k + (j + 1) by omega]
    · refine ⟨hrest.rom.trans hstep.rom, hrest.reach.trans hstep.reach, ⟨bitmap', ?_⟩,
        hrest.bpMsgType.trans hstep.bpMsgType⟩
      rw [hcontrol', hcontrol, show k + 1 + num = k + (num + 1) by omega]

end Loops

section Checksum

variable {c : Control} {records : List Record}

theorem calcHdrByteSum_checksum (c : Control) (checksum tblByteSum : Nat) :
    calcHdrByteSum { c with
      tblByteSum := tblByteSum
      tblHdr := { c.tblHdr with checksum := checksum } } = calcHdrByteSum c := by
  have htake : ∀ hdr : TableHeader, hdr.toBuf.take 16 =
      leBytes 4 hdr.header ++ leBytes 4 hdr.version ++ leBytes 4 hdr.firstRecOffset ++
        leBytes 4 hdr.tblSize := by
    intro hdr
    unfold TableHeader.toBuf
    apply take_left'
    simp
  unfold calcHdrByteSum
  rw [htake, htake]

theorem calcRecsByteSum_lt (hroom : records.length ≤ maxRecordNumV21 + 1) :
    calcRecsByteSum records < 2 ^ 31 := by
  have hmax := maxRecordNumV21_eq
  have hle := byteSum_le (records.map Record.toBuf).flatten
  rw [records_length] at hle
  unfold eepromTableRecordSize at hle
  show byteSum (records.map Record.toBuf).flatten < 2 ^ 31
  omega

theorem calcTblByteSum_eq (hroom : records.length ≤ maxRecordNumV21 + 1) :
    calcTblByteSum c records =
      calcHdrByteSum c + calcExtraInfoByteSum c + calcRecsByteSum records := by
  have hhdr := calcHdrByteSum_le c
  have hextra := calcExtraInfoByteSum_le c
  have hrecs := calcRecsByteSum_lt hroom
  exact Nat.mod_eq_of_lt (by omega)

/-- A control whose sum and checksum are those of the table with `records`. -/
structure Updated (c c' : Control) (records : List Record) : Prop where
  frame : ∃ checksum tblByteSum, c' =
    { c with
      tblByteSum := tblByteSum
      tblHdr := { c.tblHdr with checksum := checksum } }
  tblByteSum : c'.tblByteSum = calcTblByteSum c' records
  checksum : c'.tblHdr.checksum = 256 - calcTblByteSum c' records % 256

theorem updateTblChecksum_spec {old new : List Record} {oldHdr oldExtra : Nat}
    (hold : c.tblByteSum = oldHdr + oldExtra + calcRecsByteSum old) (hhdr : oldHdr ≤ 4080)
    (hextra : oldExtra ≤ 65280) (hroom : (old ++ new).length ≤ maxRecordNumV21 + 1) :
    Updated c (updateTblChecksum new oldHdr oldExtra c) (old ++ new) := by
  have hlength : old.length ≤ maxRecordNumV21 + 1 ∧ new.length ≤ maxRecordNumV21 + 1 := by
    rw [length_append] at hroom
    omega
  have hsums := calcRecsByteSum_append old new
  have hboth := calcRecsByteSum_lt hroom
  have hnow := calcHdrByteSum_le c
  have hnowExtra := calcExtraInfoByteSum_le c
  have hsum : u32 (c.tblByteSum + (2 ^ 32 - oldExtra) + (2 ^ 32 - oldHdr) +
      calcTblByteSum c new) = calcTblByteSum c (old ++ new) := by
    rw [calcTblByteSum_eq hroom, calcTblByteSum_eq hlength.2, hold, hsums]
    unfold u32
    omega
  have hsame : ∀ checksum tblByteSum, calcTblByteSum { c with
      tblByteSum := tblByteSum
      tblHdr := { c.tblHdr with checksum := checksum } } (old ++ new) =
        calcTblByteSum c (old ++ new) := by
    intro checksum tblByteSum
    unfold calcTblByteSum
    rw [calcHdrByteSum_checksum]
    rfl
  unfold updateTblChecksum
  rw [hsum]
  exact ⟨⟨_, _, rfl⟩, (hsame _ _).symm, congrArg (fun sum => 256 - sum % 256) (hsame _ _).symm⟩

end Checksum

section Intact

variable {env : Env} {xfers : Xfers} {t : Table} {records : List Record}

/-- What the control and the record area have to do with the records of the table. -/
structure Layout (t : Table) (records : List Record) : Prop where
  cells : read t.rom eepromRecordStartV21 (records.length * eepromTableRecordSize) =
    (records.map Record.toBuf).flatten
  room : records.length ≤ maxRecordNumV21 + 1
  numRecs : t.control.numRecs = records.length
  max : t.control.maxRecordNum = maxRecordNumV21
  first : t.control.tblHdr.firstRecOffset = eepromRecordStartV21
  tblSize : t.control.tblHdr.tblSize = recordAddr records.length

structure Intact (t : Table) (records : List Record) : Prop extends Layout t records where
  header : read t.rom 0 eepromTableHeaderSize = t.control.tblHdr.toBuf
  extra : read t.rom eepromTableV21ExtraGpuInfoStart eepromTableTotalExtraInfoSize =
    t.control.tblEgi.bytes
  checksum : t.control.tblHdr.checksum = 256 - calcTblByteSum t.control records % 256

def AtEnd (t : Table) (records : List Record) : Prop :=
  t.control.nextAddr = recordAddr records.length ∧
    t.control.tblByteSum = calcTblByteSum t.control records

def Rewound (t : Table) : Prop :=
  t.control.nextAddr = eepromRecordStartV21 ∧ t.control.tblByteSum = calcTblByteSum t.control []

/-- The control has gone past the first `k` records. -/
structure UpTo (t : Table) (records : List Record) (k : Nat) : Prop where
  le : k ≤ records.length
  nextAddr : t.control.nextAddr = recordAddr k
  tblByteSum : t.control.tblByteSum = calcTblByteSum t.control (records.take k)

theorem AtEnd.upTo (h : AtEnd t records) : UpTo t records records.length := by
  refine ⟨Nat.le_refl _, h.1, ?_⟩
  rw [take_length]
  exact h.2

theorem Rewound.upTo (h : Rewound t) : UpTo t records 0 :=
  ⟨Nat.zero_le _, h.1, h.2⟩

/-- A valid table, and nothing written behind the end of the EEPROM. -/
structure Valid (t : Table) (records : List Record) : Prop where
  intact : Intact t records
  position : ∃ k, UpTo t records k
  room : records.length ≤ maxRecordNumV21
  reach : t.reach ≤ eepromSizeBytes

theorem recordAddr_le {k : Nat} (hk : k ≤ maxRecordNumV21) : recordAddr k ≤ eepromSizeBytes := by
  have hmax := maxRecordNumV21_eq
  unfold recordAddr eepromRecordStartV21 eepromTableHeaderSize eepromTableTotalExtraInfoSize
    eepromTableRecordSize eepromSizeBytes
  omega

/-- The end of every operation that writes: header and info block, the latter whole or without
its reserved bytes. -/
def sealed (xfers : Xfers) (writeReserved : Bool) (t : Table) : Table :=
  writeTableHeaderExt xfers writeReserved (writeTableHeader xfers t)

theorem sealed_eq (hxfers : xfers.Succeed) (writeReserved : Bool) (t : Table) :
    sealed xfers writeReserved t = (t.put 0 t.control.tblHdr.toBuf).put 20
      (if writeReserved then t.control.tblEgi.bytes else t.control.tblEgi.toBuff) := by
  unfold sealed writeTableHeaderExt writeTableHeader
  rw [hxfers.header, hxfers.extra]
  rfl

theorem seal_intact (hxfers : xfers.Succeed) (h : Layout t records)
    (hchecksum : t.control.tblHdr.checksum = 256 - calcTblByteSum t.control records % 256)
    (writeReserved : Bool)
    (hreserved : writeReserved = true ∨ read t.rom 24 252 = replicate 252 0) :
    Intact (sealed xfers writeReserved t) records ∧
      (sealed xfers writeReserved t).control = t.control ∧
      (sealed xfers writeReserved t).reach ≤ max t.reach eepromRecordStartV21 := by
  rw [sealed_eq hxfers]
  have hlength : t.control.tblHdr.toBuf.length = 20 := Ras.TableHeader.toBuf_length _
  have hsize : (if writeReserved then t.control.tblEgi.bytes else t.control.tblEgi.toBuff).length ≤
      256 := by
    split
    · rw [bytes_length]
    · rw [toBuff_length]
      omega
  refine ⟨⟨⟨?_, h.room, h.numRecs, h.max, h.first, h.tblSize⟩, ?_, ?_, hchecksum⟩, rfl, ?_⟩
  · show read (write (write t.rom 0 t.control.tblHdr.toBuf) 20 _) 276 _ = _
    rw [read_write_outside (by right; omega), read_write_outside (by right; omega)]
    exact h.cells
  · show read (write (write t.rom 0 t.control.tblHdr.toBuf) 20 _) 0 20 = _
    rw [read_write_outside (by left; omega), read_write_self hlength]
    rfl
  · show read (write (write t.rom 0 t.control.tblHdr.toBuf) 20 _) 20 256 = _
    cases writeReserved with
    | true => exact read_write_self (bytes_length _)
    | false =>
      have hzeros := hreserved.resolve_left (by simp)
      rw [show (256 : Nat) = 4 + 252 by rfl, read_add]
      simp only [Bool.false_eq_true, if_false]
      rw [read_write_self (toBuff_length _), read_write_outside (by right; simp),
        read_write_outside (by right; omega), hzeros]
      rfl
  · show max (max t.reach (0 + t.control.tblHdr.toBuf.length))
      (20 + (if writeReserved then t.control.tblEgi.bytes else t.control.tblEgi.toBuff).length) ≤
        max t.reach 276
    omega

theorem reserved_of_extra {rom : Store} {egi : ExtraGpuInfo} (h : read rom 20 256 = egi.bytes) :
    read rom 24 252 = replicate 252 0 := by
  rw [show (256 : Nat) = 4 + 252 by rfl, read_add] at h
  exact (append_inj h (by simp)).2

theorem Intact.reserved (h : Intact t records) : read t.rom 24 252 = replicate 252 0 :=
  reserved_of_extra h.extra

theorem resetTable_spec (env : Env) (hxfers : xfers.Succeed) :
    (resetTable env xfers t).1 = true ∧ Intact (resetTable env xfers t).2 [] ∧
      AtEnd (resetTable env xfers t).2 [] ∧
      (resetTable env xfers t).2.reach ≤ max t.reach eepromRecordStartV21 := by
  have hupdate := @updateTblChecksum_spec
    ({ t.control with
      tblHdr := { t.control.tblHdr with
        header := eepromTableHdrVal
        version := if env.versionV3 then eepromTableVerV3 else eepromTableVerV21
        firstRecOffset := eepromRecordStartV21
        tblSize := eepromTableHeaderSize + eepromTableTotalExtraInfoSize }
      tblEgi := ⟨gpuHealthyUsable, 100, env.threshold % 2 ^ 16⟩
      nextAddr := eepromRecordStartV21
      tblByteSum := 0
      numRecs := 0
      maxRecordNum := maxRecordNumV21 }) [] [] 0 0 rfl (by omega) (by omega) (by simp)
  unfold resetTable
  dsimp only
  generalize updateTblChecksum [] 0 0 _ = c at hupdate ⊢
  obtain ⟨checksum, tblByteSum, hframe⟩ := hupdate.frame
  have hlayout : Layout { t with control := c } [] := by
    subst hframe
    exact ⟨by simp, Nat.zero_le _, rfl, rfl, rfl, rfl⟩
  obtain ⟨hintact, hcontrol, hreach⟩ :=
    seal_intact hxfers hlayout hupdate.checksum true (.inl rfl)
  have hnext : c.nextAddr = recordAddr 0 := by
    rw [hframe]
    rfl
  rw [hxfers.header, hxfers.extra]
  simp only [Bool.and_self, if_true]
  refine ⟨trivial, hintact, ?_, hreach⟩
  show (sealed xfers true { t with control := c }).control.nextAddr = _ ∧
    (sealed xfers true { t with control := c }).control.tblByteSum =
      calcTblByteSum (sealed xfers true { t with control := c }).control []
  rw [hcontrol]
  exact ⟨hnext, hupdate.tblByteSum⟩

theorem updateGpuHealth_frame (env : Env) (bpMsgType : BpMsg) (c : Control) :
    ∃ header egi, updateGpuHealth env bpMsgType c =
      { c with tblHdr := { c.tblHdr with header := header }, tblEgi := egi } := by
  unfold updateGpuHealth
  split
  · exact ⟨_, _, rfl⟩
  · cases bpMsgType <;> exact ⟨_, _, rfl⟩

theorem Layout.read_append {t' : Table} {kept : List Record} (h : Layout t records)
    (hwritten : WrittenTo t t' records.length kept) :
    read t'.rom eepromRecordStartV21 ((records ++ kept).length * eepromTableRecordSize) =
        ((records ++ kept).map Record.toBuf).flatten ∧
      read t'.rom 24 252 = read t.rom 24 252 := by
  have hkept := records_length kept
  rw [hwritten.rom]
  unfold writeCells
  refine ⟨?_, read_write_outside (by left; show 24 + 252 ≤ 276 + _; omega)⟩
  rw [length_append, Nat.add_mul, read_add, map_append, flatten_append]
  rw [read_write_outside (.inl (Nat.le_refl _)), h.cells, read_write_self hkept]

theorem updateTableHeader_spec (env : Env) (hxfers : xfers.Succeed) (h : Layout t records)
    (hzeros : read t.rom 24 252 = replicate 252 0) (hend : AtEnd t records)
    {t' : Table} {kept : List Record}
    (hwritten : WrittenTo t t' records.length kept)
    (hroom : (records ++ kept).length ≤ maxRecordNumV21 + 1) :
    Intact (updateTableHeader env xfers kept t') (records ++ kept) ∧
      AtEnd (updateTableHeader env xfers kept t') (records ++ kept) ∧
      (updateTableHeader env xfers kept t').reach ≤
        max t.reach (recordAddr (records ++ kept).length) := by
  obtain ⟨bitmap, hcontrol⟩ := hwritten.control
  obtain ⟨hcells, hreserved⟩ := h.read_append hwritten
  have hfirst : recordAddr records.length + eepromTableRecordSize * kept.length =
      recordAddr (records ++ kept).length := by
    rw [length_append]
    unfold recordAddr
    rw [Nat.add_mul, Nat.mul_comm eepromTableRecordSize, Nat.add_assoc]
  have hnumRecs : u32 (t'.control.numRecs + kept.length) = (records ++ kept).length := by
    have hmax := maxRecordNumV21_eq
    rw [hcontrol]
    show u32 (t.control.numRecs + kept.length) = _
    rw [h.numRecs, ← length_append]
    exact Nat.mod_eq_of_lt (by omega)
  have htblSize : u32 (t'.control.tblHdr.tblSize + eepromTableRecordSize * kept.length) =
      recordAddr (records ++ kept).length := by
    have hlt := recordAddr_lt hroom
    rw [hcontrol]
    show u32 (t.control.tblHdr.tblSize + _) = _
    rw [h.tblSize, hfirst]
    exact Nat.mod_eq_of_lt (by omega)
  have hsum : t'.control.tblByteSum =
      calcHdrByteSum t'.control + calcExtraInfoByteSum t'.control + calcRecsByteSum records := by
    rw [hcontrol]
    exact hend.2.trans (calcTblByteSum_eq h.room)
  unfold updateTableHeader
  rw [hnumRecs, htblSize]
  obtain ⟨header, egi, hhealth⟩ := updateGpuHealth_frame env t'.bpMsgType
    { t'.control with
      numRecs := (records ++ kept).length
      tblHdr := { t'.control.tblHdr with tblSize := recordAddr (records ++ kept).length } }
  dsimp only
  rw [hhealth]
  have hupdate := updateTblChecksum_spec (c :=
    { t'.control with
      numRecs := (records ++ kept).length
      tblHdr := { t'.control.tblHdr with
        header := header
        tblSize := recordAddr (records ++ kept).length }
      tblEgi := egi }) hsum (calcHdrByteSum_le _) (calcExtraInfoByteSum_le _) hroom
  generalize updateTblChecksum kept _ _ _ = c at hupdate ⊢
  obtain ⟨checksum, tblByteSum, hframe⟩ := hupdate.frame
  have hlayout : Layout { t' with control := c } (records ++ kept) := by
    rw [hframe, hcontrol]
    exact ⟨hcells, hroom, rfl, h.max, h.first, rfl⟩
  obtain ⟨hintact, hsame, hreach⟩ := seal_intact hxfers hlayout hupdate.checksum false
    (.inr (hreserved.trans hzeros))
  have hnext : c.nextAddr = recordAddr (records ++ kept).length := by
    rw [hframe, hcontrol, length_append]
  refine ⟨hintact, ?_, Nat.le_trans hreach ?_⟩
  · show (sealed xfers false { t' with control := c }).control.nextAddr = _ ∧
      (sealed xfers false { t' with control := c }).control.tblByteSum =
        calcTblByteSum (sealed xfers false { t' with control := c }).control (records ++ kept)
    rw [hsame]
    exact ⟨hnext, hupdate.tblByteSum⟩
  · have hstart : eepromRecordStartV21 ≤ recordAddr (records ++ kept).length :=
      Nat.le_add_right ..
    show max t'.reach _ ≤ _
    rw [hwritten.reach, ← length_append]
    split <;> omega

theorem processWrite_spec (env : Env) (hxfers : xfers.Succeed) (h : Layout t records)
    (hzeros : read t.rom 24 252 = replicate 252 0) (hend : AtEnd t records)
    (new : List Record) :
    (processWrite env xfers new t).1 = true ∧
      Intact (processWrite env xfers new t).2
        (records ++ new.take (maxRecordNumV21 + 1 - records.length)) ∧
      AtEnd (processWrite env xfers new t).2
        (records ++ new.take (maxRecordNumV21 + 1 - records.length)) ∧
      (processWrite env xfers new t).2.reach ≤ max t.reach
        (recordAddr (records ++ new.take (maxRecordNumV21 + 1 - records.length)).length) := by
  have hat : At t records.length := ⟨hend.1, h.first, h.max, h.room⟩
  obtain ⟨t', hrun, hwritten⟩ := writeRecords_spec hxfers 0 hat new
  have htake : new.take (0 + (new.take (maxRecordNumV21 + 1 - records.length)).length) =
      new.take (maxRecordNumV21 + 1 - records.length) := by
    rw [Nat.zero_add, length_take]
    exact (take_eq_take_min ..).symm
  have hroom : (records ++ new.take (maxRecordNumV21 + 1 - records.length)).length ≤
      maxRecordNumV21 + 1 := by
    have := h.room
    rw [length_append, length_take]
    omega
  unfold processWrite
  rw [hrun]
  dsimp only
  rw [htake]
  exact ⟨rfl, updateTableHeader_spec env hxfers h hzeros hend hwritten hroom⟩

theorem calcTblByteSum_stored (c : Control) (records : List Record) :
    calcTblByteSum c (records.map Record.stored) = calcTblByteSum c records := by
  unfold calcTblByteSum
  rw [calcRecsByteSum_stored]

theorem Layout.readBack (h : Layout t records) {num : Nat} (hnum : num ≤ records.length) :
    ((range num).map fun j =>
      Record.ofBuf (cell t.rom eepromRecordStartV21 eepromTableRecordSize (0 + j))) =
        (records.take num).map Record.stored := by
  have hsize : ∀ c ∈ records.map Record.toBuf, c.length = eepromTableRecordSize := by
    intro c hc
    obtain ⟨record, _, rfl⟩ := mem_map.mp hc
    exact record_length record
  have hcells := map_cell_of_read hsize (by rw [length_map]; exact h.cells)
  rw [length_map] at hcells
  have hfirst : (range num).map (cell t.rom eepromRecordStartV21 eepromTableRecordSize) =
      (records.take num).map Record.toBuf := by
    rw [map_take, ← hcells, ← map_take, take_range, Nat.min_eq_left hnum]
  have hstored : Record.ofBuf ∘ Record.toBuf = Record.stored := funext Record.ofBuf_toBuf
  calc ((range num).map fun j =>
        Record.ofBuf (cell t.rom eepromRecordStartV21 eepromTableRecordSize (0 + j)))
      = ((range num).map
          (cell t.rom eepromRecordStartV21 eepromTableRecordSize)).map Record.ofBuf := by
        rw [map_map]
        apply map_congr_left
        intro j _
        rw [Nat.zero_add]
        rfl
    _ = (records.take num).map Record.stored := by rw [hfirst, map_map, hstored]

/-- What reading the first records leaves: they are behind the control, and in its sum. -/
structure HasRead (t t' : Table) (records : List Record) (num : Nat) : Prop where
  rom : t'.rom = t.rom
  reach : t'.reach = t.reach
  control : ∃ bitmap, t'.control =
    { t.control with
      nextAddr := recordAddr num
      tblByteSum := calcTblByteSum t.control (records.take num)
      badChannelBitmap := bitmap }

theorem processRead_layout (hxfers : xfers.Succeed) (h : Layout t records)
    (hnext : t.control.nextAddr = eepromRecordStartV21) {num : Nat}
    (hnum : num ≤ records.length) :
    ∃ t', processRead xfers num t = (some ((records.take num).map Record.stored), t') ∧
      HasRead t t' records num := by
  have hstart : t.control.nextAddr = recordAddr 0 := hnext
  have hat : At t 0 := ⟨hstart, h.first, h.max, Nat.zero_le _⟩
  have hroom : 0 + num ≤ maxRecordNumV21 + 1 := by
    have := h.room
    omega
  obtain ⟨t', hrun, hread⟩ := readRecords_spec hxfers 0 hat hroom
  obtain ⟨bitmap, hcontrol⟩ := hread.control
  rw [h.readBack hnum] at hrun
  have hsum : calcTblByteSum t'.control ((records.take num).map Record.stored) =
      calcTblByteSum t.control (records.take num) := by
    rw [hcontrol]
    exact calcTblByteSum_stored t.control (records.take num)
  unfold processRead
  rw [hrun]
  dsimp only
  rw [hsum, hcontrol, Nat.zero_add]
  exact ⟨_, rfl, hread.rom, hread.reach, bitmap, rfl⟩

theorem HasRead.intact {t' : Table} {num : Nat} (hread : HasRead t t' records num)
    (h : Intact t records) (hnum : num ≤ records.length) :
    Intact t' records ∧ UpTo t' records num := by
  obtain ⟨bitmap, hcontrol⟩ := hread.control
  obtain ⟨rom, reach, control, bpMsgType, flag⟩ := t'
  obtain rfl : control = _ := hcontrol
  obtain rfl : rom = t.rom := hread.rom
  exact ⟨⟨⟨h.cells, h.room, h.numRecs, h.max, h.first, h.tblSize⟩, h.header, h.extra, h.checksum⟩,
    hnum, rfl, rfl⟩

theorem resetReadControl_spec (h : Intact t records) :
    Intact (resetReadControl t) records ∧ Rewound (resetReadControl t) :=
  ⟨⟨⟨h.cells, h.room, h.numRecs, h.max, h.first, h.tblSize⟩, h.header, h.extra, h.checksum⟩,
    rfl, rfl⟩

theorem resealed_spec (hxfers : xfers.Succeed) {oldHdr oldExtra : Nat} (h : Layout t records)
    (hold : t.control.tblByteSum = oldHdr + oldExtra) (hhdr : oldHdr ≤ 4080)
    (hextra : oldExtra ≤ 65280) {cache : List Record}
    (hcache : cache.map Record.toBuf = records.map Record.toBuf) :
    Intact (resetReadControl (sealed xfers true
        { t with control := updateTblChecksum cache oldHdr oldExtra t.control })) records ∧
      Rewound (resetReadControl (sealed xfers true
        { t with control := updateTblChecksum cache oldHdr oldExtra t.control })) ∧
      (sealed xfers true
        { t with control := updateTblChecksum cache oldHdr oldExtra t.control }).reach ≤
          max t.reach eepromRecordStartV21 := by
  have hlength : cache.length = records.length := by
    rw [← length_map Record.toBuf, hcache, length_map]
  have hupdate : Updated t.control (updateTblChecksum cache oldHdr oldExtra t.control) cache :=
    updateTblChecksum_spec hold hhdr hextra (by
      rw [nil_append, hlength]
      exact h.room)
  generalize updateTblChecksum cache oldHdr oldExtra t.control = c at hupdate ⊢
  obtain ⟨checksum, tblByteSum, hframe⟩ := hupdate.frame
  have hlayout : Layout { t with control := c } records := by
    subst hframe
    exact ⟨h.cells, h.room, h.numRecs, h.max, h.first, h.tblSize⟩
  have hsums : calcTblByteSum c cache = calcTblByteSum c records := by
    unfold calcTblByteSum calcRecsByteSum
    rw [hcache]
  obtain ⟨hintact, _, hreach⟩ := seal_intact hxfers hlayout
    (hupdate.checksum.trans (by rw [hsums])) true (.inl rfl)
  exact ⟨(resetReadControl_spec hintact).1, (resetReadControl_spec hintact).2, hreach⟩

theorem toBuf_map_stored (records : List Record) :
    (records.map Record.stored).map Record.toBuf = records.map Record.toBuf := by
  rw [map_map]
  exact map_congr_left fun record _ => toBuf_stored record

theorem calcTblByteSum_none (c : Control) :
    calcTblByteSum c [] = calcHdrByteSum c + calcExtraInfoByteSum c := by
  rw [calcTblByteSum_eq (Nat.zero_le _), calcRecsByteSum_nil, Nat.add_zero]

theorem fixHeaderExt_spec (hxfers : xfers.Succeed) (h : Layout t records) {cache : List Record}
    (hcache : cache.map Record.toBuf = records.map Record.toBuf) :
    Intact (fixHeaderExt xfers cache t) records ∧ Rewound (fixHeaderExt xfers cache t) ∧
      (fixHeaderExt xfers cache t).reach ≤ max t.reach eepromRecordStartV21 :=
  resealed_spec hxfers (t := resetReadControl t)
    ⟨h.cells, h.room, h.numRecs, h.max, h.first, h.tblSize⟩ (calcTblByteSum_none _)
    (calcHdrByteSum_le _) (calcExtraInfoByteSum_le _) hcache

theorem thresholdFixed_frame (env : Env) (numRecs : Nat) (t : Table) :
    ∃ header egi bpMsgType, thresholdFixed env numRecs t =
      { t with
        control := { t.control with
          tblHdr := { t.control.tblHdr with header := header }
          tblEgi := egi }
        bpMsgType := bpMsgType } := by
  unfold thresholdFixed
  dsimp only
  split
  · exact ⟨_, _, _, rfl⟩
  · exact ⟨_, _, _, rfl⟩

theorem fixThreshold_spec (env : Env) (hxfers : xfers.Succeed) (h : Layout t records)
    {cache : List Record} (hcache : cache.map Record.toBuf = records.map Record.toBuf) :
    Intact (fixThreshold env xfers cache t) records ∧ Rewound (fixThreshold env xfers cache t) ∧
      (fixThreshold env xfers cache t).reach ≤ max t.reach eepromRecordStartV21 := by
  obtain ⟨header, egi, bpMsgType, hframe⟩ :=
    thresholdFixed_frame env cache.length (resetReadControl t)
  unfold fixThreshold
  dsimp only
  rw [hframe]
  have hsum : (resetReadControl t).control.tblByteSum =
      calcHdrByteSum t.control + calcExtraInfoByteSum t.control := calcTblByteSum_none t.control
  have hlayout : Layout
      { resetReadControl t with
        control := { (resetReadControl t).control with
          tblHdr := { (resetReadControl t).control.tblHdr with header := header }
          tblEgi := egi }
        bpMsgType := bpMsgType } records :=
    ⟨h.cells, h.room, h.numRecs, h.max, h.first, h.tblSize⟩
  exact resealed_spec hxfers hlayout hsum (calcHdrByteSum_le t.control)
    (calcExtraInfoByteSum_le t.control) hcache

/-- A table that has room for other records: what an overwrite needs. -/
structure Writable (t : Table) : Prop where
  max : t.control.maxRecordNum = maxRecordNumV21
  first : t.control.tblHdr.firstRecOffset = eepromRecordStartV21
  reserved : read t.rom 24 252 = replicate 252 0

theorem fixHeaderExt_writable (hxfers : xfers.Succeed)
    (hmax : t.control.maxRecordNum = maxRecordNumV21)
    (hfirst : t.control.tblHdr.firstRecOffset = eepromRecordStartV21) (cache : List Record) :
    Writable (fixHeaderExt xfers cache t) ∧
      (fixHeaderExt xfers cache t).reach ≤ max t.reach eepromRecordStartV21 := by
  have hseal : ∀ t : Table, t.control.maxRecordNum = maxRecordNumV21 →
      t.control.tblHdr.firstRecOffset = eepromRecordStartV21 →
      Writable (resetReadControl (sealed xfers true t)) ∧
        (sealed xfers true t).reach ≤ max t.reach eepromRecordStartV21 := by
    intro t hmax hfirst
    have hlength : t.control.tblHdr.toBuf.length = 20 := Ras.TableHeader.toBuf_length _
    rw [sealed_eq hxfers]
    refine ⟨⟨hmax, hfirst, ?_⟩, ?_⟩
    · exact reserved_of_extra (read_write_self (bytes_length t.control.tblEgi))
    · show max (max t.reach (0 + t.control.tblHdr.toBuf.length))
        (20 + t.control.tblEgi.bytes.length) ≤ max t.reach 276
      rw [bytes_length]
      omega
  exact hseal _ hmax hfirst

theorem overwriteTable_spec (env : Env) (hxfers : xfers.Succeed) (h : Writable t)
    {cache : List Record} (hroom : cache.length ≤ maxRecordNumV21 + 1) :
    Intact (overwriteTable env xfers cache t) cache ∧ Rewound (overwriteTable env xfers cache t) ∧
      (overwriteTable env xfers cache t).reach ≤ max t.reach (recordAddr cache.length) := by
  have hlayout : Layout (resetWriteControl t) [] :=
    ⟨read_zero, Nat.zero_le _, rfl, h.max, h.first, rfl⟩
  have hend : AtEnd (resetWriteControl t) [] := ⟨rfl, rfl⟩
  obtain ⟨hdone, hintact, _, hreach⟩ := processWrite_spec env hxfers hlayout h.reserved hend cache
  rw [nil_append, take_of_length_le (by simpa using hroom)] at hintact hreach
  unfold overwriteTable
  dsimp only
  rw [if_pos hdone]
  exact ⟨(resetReadControl_spec hintact).1, (resetReadControl_spec hintact).2, hreach⟩

theorem Layout.congr {records' : List Record} (h : Layout t records)
    (hsame : records'.map Record.toBuf = records.map Record.toBuf) : Layout t records' := by
  have hlength : records'.length = records.length := by
    rw [← length_map Record.toBuf, hsame, length_map]
  constructor
  · rw [hlength, hsame]
    exact h.cells
  · rw [hlength]
    exact h.room
  · rw [hlength]
    exact h.numRecs
  · exact h.max
  · exact h.first
  · rw [hlength]
    exact h.tblSize

theorem Intact.congr {records' : List Record} (h : Intact t records)
    (hsame : records'.map Record.toBuf = records.map Record.toBuf) : Intact t records' := by
  have hsum : calcTblByteSum t.control records' = calcTblByteSum t.control records := by
    unfold calcTblByteSum calcRecsByteSum
    rw [hsame]
  refine ⟨h.toLayout.congr hsame, h.header, h.extra, ?_⟩
  rw [hsum]
  exact h.checksum

theorem removeDups_sublist (records : List Record) :
    (removeDups records).Sublist records := by
  fun_induction removeDups records with
  | case1 => exact List.Sublist.refl []
  | case2 record rest ih =>
    simp only [unattach_filter, unattach_attach] at ih
    exact List.Sublist.cons_cons record (ih.trans filter_sublist)

theorem removeDups_distinct {records : List Record}
    (h : records.Pairwise fun a b => a.retiredRowPfn ≠ b.retiredRowPfn) :
    removeDups records = records := by
  induction records with
  | nil => simp [removeDups]
  | cons record rest ih =>
    obtain ⟨hfirst, hrest⟩ := pairwise_cons.mp h
    have hfilter : rest.filter (fun other => other.retiredRowPfn != record.retiredRowPfn) = rest := by
      apply filter_eq_self.mpr
      intro other hother
      have := hfirst other hother
      simp only [bne_iff_ne, ne_eq]
      intro heq
      exact this heq.symm
    rw [removeDups, hfilter, ih hrest]

structure FixXfers.Succeed (xfers : FixXfers) : Prop where
  headerExt : xfers.headerExt.Succeed
  overwrite : xfers.overwrite.Succeed
  threshold : xfers.threshold.Succeed

theorem fixThreshold_needed (env : Env) (hxfers : xfers.Succeed) (need : Bool)
    {cache : List Record} (h : Intact t cache) (hrewound : Rewound t) :
    Intact (if need then fixThreshold env xfers cache t else t) cache ∧
      Rewound (if need then fixThreshold env xfers cache t else t) ∧
      (if need then fixThreshold env xfers cache t else t).reach ≤
        max t.reach eepromRecordStartV21 := by
  cases need with
  | true => exact fixThreshold_spec env hxfers h.toLayout rfl
  | false => exact ⟨h, hrewound, Nat.le_max_left ..⟩

theorem fixOverwriteTable_spec (env : Env) {xfers : FixXfers} (hxfers : xfers.Succeed)
    (h : Layout t records) (forceWrite : Bool) :
    Intact (fixOverwriteTable env xfers forceWrite (records.map Record.stored) t)
        (removeDups (records.map Record.stored)) ∧
      Rewound (fixOverwriteTable env xfers forceWrite (records.map Record.stored) t) ∧
      (fixOverwriteTable env xfers forceWrite (records.map Record.stored) t).reach ≤
        max t.reach (recordAddr records.length) := by
  have hsublist := removeDups_sublist (records.map Record.stored)
  have hle := hsublist.length_le
  rw [length_map] at hle
  have hstart : eepromRecordStartV21 ≤ recordAddr records.length := Nat.le_add_right ..
  have hsame : (removeDups (records.map Record.stored)).length = records.length →
      Layout t (removeDups (records.map Record.stored)) := by
    intro hlength
    rw [hsublist.eq_of_length (by rw [hlength, length_map])]
    exact h.congr (toBuf_map_stored records)
  unfold fixOverwriteTable
  dsimp only
  generalize removeDups (records.map Record.stored) = cache at hsame hle ⊢
  -- behind the header fix-up, and the overwrite where it is needed
  have hstep : ∀ t', t' = (if (forceWrite || cache.length != t.control.numRecs) = true then
        overwriteTable env xfers.overwrite cache (fixHeaderExt xfers.headerExt cache t)
      else fixHeaderExt xfers.headerExt cache t) →
      Intact t' cache ∧ Rewound t' ∧ t'.reach ≤ max t.reach (recordAddr records.length) := by
    rintro t' rfl
    obtain ⟨hwritable, hreach⟩ := fixHeaderExt_writable hxfers.headerExt h.max h.first cache
    split
    · have hroom : cache.length ≤ maxRecordNumV21 + 1 := Nat.le_trans hle h.room
      have haddr : recordAddr cache.length ≤ recordAddr records.length :=
        Nat.add_le_add_left (Nat.mul_le_mul_right _ hle) _
      obtain ⟨hintact, hrewound, hover⟩ :=
        overwriteTable_spec env hxfers.overwrite hwritable hroom
      exact ⟨hintact, hrewound, by omega⟩
    · rename_i hkept
      have hlength : cache.length = records.length := by
        simp only [Bool.or_eq_true, bne_iff_ne, not_or, ne_eq, Decidable.not_not] at hkept
        rw [hkept.2, h.numRecs]
      obtain ⟨hintact, hrewound, hfix⟩ :=
        fixHeaderExt_spec hxfers.headerExt (hsame hlength) rfl
      exact ⟨hintact, hrewound, by omega⟩
  generalize hover : (if (forceWrite || cache.length != t.control.numRecs) = true then
      overwriteTable env xfers.overwrite cache (fixHeaderExt xfers.headerExt cache t)
    else fixHeaderExt xfers.headerExt cache t) = t'
  obtain ⟨hintact, hrewound, hreach⟩ := hstep t' hover.symm
  obtain ⟨hdone, hagain, hlast⟩ := fixThreshold_needed env hxfers.threshold
    (needFixThreshold env cache.length t.control) hintact hrewound
  exact ⟨hdone, hagain, by omega⟩

end Intact

end MxGpu.RasV21
