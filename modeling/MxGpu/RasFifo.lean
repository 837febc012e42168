import MxGpu.RasEeprom
import MxGpu.Transition

/- What the table holds after any appends, reads and resets (`rascore/ras_eeprom.c`). -/
namespace MxGpu.Ras

open ByteStore SlotRing

variable {t t' : Table} {control : Control} {records : List Record} {saved : Nat}

/-- The table is inside of the EEPROM, and its records are inside of the table. -/
structure Sized (control : Control) : Prop where
  fits : control.rasRecordOffset + control.rasMaxRecordCount * rasTableRecordSize ≤ rasTblSizeBytes
  fri : control.rasFri < control.rasMaxRecordCount
  num : control.rasNumRecs ≤ control.rasMaxRecordCount

theorem u32_of_lt {value : Nat} (h : value < 2 ^ 32) : u32 value = value :=
  Nat.mod_eq_of_lt h

theorem u32_pred {value : Nat} (hpos : 0 < value) (h : value < 2 ^ 32) :
    u32 (value + (2 ^ 32 - 1)) = value - 1 := by
  have hsum : value + (2 ^ 32 - 1) = value - 1 + 2 ^ 32 := by omega
  unfold u32
  rw [hsum, Nat.add_mod_right, Nat.mod_eq_of_lt (by omega)]

def slot (t : Table) (i : Nat) : List UInt8 :=
  cell t.rom t.control.rasRecordOffset rasTableRecordSize i

def live (t : Table) : List (List UInt8) :=
  window (slot t) t.control.rasMaxRecordCount t.control.rasFri t.control.rasNumRecs

theorem noteChannels_eq (control : Control) (records : List Record) :
    ∃ bitmap flag, noteChannels control records =
      { control with badChannelBitmap := bitmap, updateChannelFlag := flag } := by
  induction records generalizing control with
  | nil => exact ⟨_, _, rfl⟩
  | cons record rest ih =>
    unfold noteChannels
    split
    · obtain ⟨bitmap, flag, h⟩ := ih { control with
        badChannelBitmap := control.badChannelBitmap ||| 1 <<< record.memChannel.toNat
        updateChannelFlag := true }
      exact ⟨bitmap, flag, h⟩
    · exact ih control

section AppendTable

variable {rom : Store} {cells : List (List UInt8)} {a num : Nat}

theorem eepromWrite_cells (hsized : Sized control)
    (hcells : ∀ c ∈ cells, c.length = rasTableRecordSize)
    (hin : a + num ≤ control.rasMaxRecordCount) :
    eepromWrite ⟨rom, control⟩ cells.flatten a num =
      ⟨writeCells rom control.rasRecordOffset rasTableRecordSize a (cells.take num), control⟩ := by
  have hfits := hsized.fits
  have hbytes : (a + num) * rasTableRecordSize ≤
      control.rasMaxRecordCount * rasTableRecordSize := Nat.mul_le_mul_right _ hin
  unfold rasTblSizeBytes at hfits
  rw [Nat.add_mul] at hbytes
  unfold eepromWrite rasIndexToOffset
  simp only
  rw [u32_of_lt (by omega), u32_of_lt (by omega), take_flatten hcells]
  rfl

theorem eepromWrite_short (hsized : Sized control)
    (hcells : ∀ c ∈ cells, c.length = rasTableRecordSize) (hnum : cells.length = num)
    (hin : a + num ≤ control.rasMaxRecordCount) :
    eepromWrite ⟨rom, control⟩ cells.flatten a num =
      ⟨writeRound rom control.rasRecordOffset rasTableRecordSize control.rasMaxRecordCount a cells,
        control⟩ := by
  rw [eepromWrite_cells hsized hcells hin, writeRound_short (by omega),
    List.take_of_length_le (by omega)]

theorem eepromWrite_round (hsized : Sized control)
    (hcells : ∀ c ∈ cells, c.length = rasTableRecordSize) (ha : a < control.rasMaxRecordCount)
    (hnum : cells.length = control.rasMaxRecordCount - a + num)
    (hle : num ≤ control.rasMaxRecordCount) :
    eepromWrite (eepromWrite ⟨rom, control⟩ cells.flatten a (control.rasMaxRecordCount - a))
        (cells.flatten.drop ((control.rasMaxRecordCount - a) * rasTableRecordSize)) 0 num =
      ⟨writeRound rom control.rasRecordOffset rasTableRecordSize control.rasMaxRecordCount a cells,
        control⟩ := by
  rw [eepromWrite_cells hsized hcells (by omega), drop_flatten hcells,
    eepromWrite_cells hsized (fun c hc => hcells c (List.mem_of_mem_drop hc)) (by omega),
    List.take_of_length_le (l := cells.drop _) (by rw [List.length_drop]; omega)]
  rfl

structure AppendsTo (t t' : Table) (records : List Record) : Prop where
  rom : t'.rom = writeRound t.rom t.control.rasRecordOffset rasTableRecordSize
    t.control.rasMaxRecordCount
    ((t.control.rasFri + t.control.rasNumRecs) % t.control.rasMaxRecordCount)
    (records.map Record.toBuf)
  fri : t'.control.rasFri = (t.control.rasFri +
    (t.control.rasNumRecs + records.length - t.control.rasMaxRecordCount)) %
      t.control.rasMaxRecordCount
  num : t'.control.rasNumRecs =
    min t.control.rasMaxRecordCount (t.control.rasNumRecs + records.length)
  tblHdr : t'.control.tblHdr = t.control.tblHdr
  tblRai : t'.control.tblRai = t.control.tblRai
  threshold : t'.control.recordThresholdCount = t.control.recordThresholdCount
  offset : t'.control.rasRecordOffset = t.control.rasRecordOffset
  max : t'.control.rasMaxRecordCount = t.control.rasMaxRecordCount

theorem count_full {max : Nat} (hmax : 0 < max) (b : Nat) :
    1 + (max + b - (b % max + 1) % max) % max = max := by
  have hlt : b % max < max := Nat.mod_lt b hmax
  have hb : b % max + max * (b / max) = b := Nat.mod_add_div b max
  by_cases hlast : b % max + 1 = max
  · rw [hlast, Nat.mod_self, Nat.sub_zero, Nat.add_mod_left]
    omega
  · have hround : max + b - (b % max + 1) = max - 1 + max * (b / max) := by omega
    rw [Nat.mod_eq_of_lt (show b % max + 1 < max by omega), hround, Nat.add_mul_mod_self_left,
      Nat.mod_eq_of_lt (by omega)]
    omega

theorem count_room {max fri count b : Nat} (hcount : 0 < count) (hle : count ≤ max)
    (hb : b = fri + count - 1 ∨ b + max = fri + count - 1 ∧ fri ≤ max) :
    1 + (max + b - fri) % max = count := by
  rcases hb with hb | ⟨hb, _⟩
  · have hsum : max + b - fri = max + (count - 1) := by omega
    rw [hsum, Nat.add_mod_left, Nat.mod_eq_of_lt (by omega)]
    omega
  · have hsum : max + b - fri = count - 1 := by omega
    rw [hsum, Nat.mod_eq_of_lt (by omega)]
    omega

theorem AppendsTo.settle {bitmap : Nat} {flag : Bool} {fri b : Nat} (hsized : Sized control)
    (hb : control.rasMaxRecordCount + b < 2 ^ 31)
    (hfri : fri = (control.rasFri +
      (control.rasNumRecs + records.length - control.rasMaxRecordCount)) %
        control.rasMaxRecordCount)
    (hnum : 1 + (control.rasMaxRecordCount + b - fri) % control.rasMaxRecordCount =
      min control.rasMaxRecordCount (control.rasNumRecs + records.length)) :
    AppendsTo ⟨rom, control⟩ (settle ⟨writeRound rom control.rasRecordOffset rasTableRecordSize
      control.rasMaxRecordCount
      ((control.rasFri + control.rasNumRecs) % control.rasMaxRecordCount)
      (records.map Record.toBuf),
      { control with badChannelBitmap := bitmap, updateChannelFlag := flag }⟩ fri b) records := by
  have hlt : fri < control.rasMaxRecordCount := by
    rw [hfri]
    exact Nat.mod_lt _ (Nat.zero_lt_of_lt hsized.fri)
  have hsub : u32 (control.rasMaxRecordCount + b + (2 ^ 32 - fri)) =
      control.rasMaxRecordCount + b - fri := by
    have hsum : control.rasMaxRecordCount + b + (2 ^ 32 - fri) =
        control.rasMaxRecordCount + b - fri + 2 ^ 32 := by omega
    unfold u32
    rw [hsum, Nat.add_mod_right, Nat.mod_eq_of_lt (by omega)]
  constructor
  · rfl
  · exact hfri
  · simp only [← hnum, ← hsub]
    rfl
  all_goals rfl

theorem eepromAppendTable_spec (hsized : Sized t.control) (hpos : 0 < records.length)
    (hlength : records.length ≤ t.control.rasMaxRecordCount) :
    AppendsTo t (eepromAppendTable t records) records := by
  obtain ⟨rom, control⟩ := t
  change Sized control at hsized
  change records.length ≤ control.rasMaxRecordCount at hlength
  have hfits := hsized.fits
  have hfri := hsized.fri
  have hnum := hsized.num
  have hmax : control.rasMaxRecordCount < 2 ^ 18 := by
    unfold rasTblSizeBytes rasTableRecordSize at hfits
    omega
  have hcells : ∀ c ∈ records.map Record.toBuf, c.length = rasTableRecordSize := by
    intro c hc
    obtain ⟨record, _, rfl⟩ := List.mem_map.mp hc
    exact record.toBuf_length
  have hcount : (records.map Record.toBuf).length = records.length := List.length_map ..
  obtain ⟨bitmap, flag, hnote⟩ := noteChannels_eq control records
  have hnoted : Sized { control with badChannelBitmap := bitmap, updateChannelFlag := flag } :=
    ⟨hfits, hfri, hnum⟩
  have ha : u32 (control.rasFri + control.rasNumRecs) =
      control.rasFri + control.rasNumRecs := u32_of_lt (by omega)
  have hb : u32 (control.rasFri + control.rasNumRecs + records.length + (2 ^ 32 - 1)) =
      control.rasFri + control.rasNumRecs + records.length - 1 :=
    u32_pred (by omega) (by omega)
  have hfull := count_full (Nat.zero_lt_of_lt hfri)
  unfold eepromAppendTable
  simp only [hnote, ha, hb]
  generalize hlast : control.rasFri + control.rasNumRecs + records.length - 1 = b
  by_cases hroom : b < control.rasMaxRecordCount
  · -- case 0: the records end before the table does
    rw [if_pos hroom, eepromWrite_short hnoted hcells hcount (by
      show _ ≤ control.rasMaxRecordCount
      omega)]
    have hmod : (control.rasFri + control.rasNumRecs) % control.rasMaxRecordCount =
      control.rasFri + control.rasNumRecs := Nat.mod_eq_of_lt (by omega)
    rw [← hmod]
    apply AppendsTo.settle hsized (by omega)
    · rw [Nat.sub_eq_zero_of_le (by omega), Nat.add_zero, Nat.mod_eq_of_lt hfri]
    · rw [Nat.min_eq_right (by omega)]
      exact count_room (by omega) (by omega) (.inl (by omega))
  · rw [if_neg hroom]
    by_cases hbefore : control.rasFri + control.rasNumRecs < control.rasMaxRecordCount
    · -- case 1: they begin before its end and go on at its beginning
      have hround : b % control.rasMaxRecordCount = b - control.rasMaxRecordCount := by
        rw [Nat.mod_eq_sub_mod (by omega), Nat.mod_eq_of_lt (by omega)]
      rw [if_pos hbefore, eepromWrite_round hnoted hcells hbefore (by
        show _ = control.rasMaxRecordCount - _ + _
        omega) (by
        show _ ≤ control.rasMaxRecordCount
        omega)]
      have hmod : (control.rasFri + control.rasNumRecs) % control.rasMaxRecordCount =
        control.rasFri + control.rasNumRecs := Nat.mod_eq_of_lt (by omega)
      rw [← hmod]
      apply AppendsTo.settle hsized (by omega)
      · by_cases hover : control.rasFri < b % control.rasMaxRecordCount + 1
        · have hnext : b % control.rasMaxRecordCount + 1 = control.rasFri +
              (control.rasNumRecs + records.length - control.rasMaxRecordCount) := by omega
          rw [if_pos hover, hnext]
        · rw [if_neg hover, Nat.sub_eq_zero_of_le (by omega), Nat.add_zero,
            Nat.mod_eq_of_lt hfri]
      · by_cases hover : control.rasFri < b % control.rasMaxRecordCount + 1
        · rw [if_pos hover, hfull, Nat.min_eq_left (by omega)]
        · rw [if_neg hover, Nat.min_eq_right (by omega)]
          exact count_room (by omega) (by omega) (.inl (by omega))
    · have hmod : (control.rasFri + control.rasNumRecs) % control.rasMaxRecordCount =
          control.rasFri + control.rasNumRecs - control.rasMaxRecordCount := by
        rw [Nat.mod_eq_sub_mod (by omega), Nat.mod_eq_of_lt (by omega)]
      have hmodLt : b % control.rasMaxRecordCount < control.rasMaxRecordCount :=
        Nat.mod_lt b (Nat.zero_lt_of_lt hfri)
      have hfullMod := hfull (b % control.rasMaxRecordCount)
      rw [Nat.mod_mod] at hfullMod
      rw [if_neg hbefore]
      by_cases htwice : b < 2 * control.rasMaxRecordCount
      · -- case 2a: all of them are behind the beginning of the table
        have hround : b % control.rasMaxRecordCount = b - control.rasMaxRecordCount := by
          rw [Nat.mod_eq_sub_mod (by omega), Nat.mod_eq_of_lt (by omega)]
        rw [if_pos (by omega), eepromWrite_short hnoted hcells hcount (by
          show _ ≤ control.rasMaxRecordCount
          omega)]
        apply AppendsTo.settle hsized (by omega)
        · by_cases hover : control.rasFri ≤ b % control.rasMaxRecordCount
          · have hnext : b % control.rasMaxRecordCount + 1 = control.rasFri +
                (control.rasNumRecs + records.length - control.rasMaxRecordCount) := by omega
            rw [if_pos hover, hnext]
          · rw [if_neg hover, Nat.sub_eq_zero_of_le (by omega), Nat.add_zero,
              Nat.mod_eq_of_lt hfri]
        · by_cases hover : control.rasFri ≤ b % control.rasMaxRecordCount
          · rw [if_pos hover, hfullMod, Nat.min_eq_left (by omega)]
          · rw [if_neg hover, Nat.min_eq_right (by omega)]
            exact count_room (by omega) (by omega) (.inr ⟨by omega, by omega⟩)
      · -- case 2b: they go round once more
        have hround : b % control.rasMaxRecordCount = b - 2 * control.rasMaxRecordCount := by
          rw [Nat.mod_eq_sub_mod (by omega), Nat.mod_eq_sub_mod (by omega),
            Nat.mod_eq_of_lt (by omega)]
          omega
        rw [if_neg (by omega), eepromWrite_round hnoted hcells (by
          show _ < control.rasMaxRecordCount
          omega) (by
          show _ = control.rasMaxRecordCount - _ + _
          omega) (by
          show _ ≤ control.rasMaxRecordCount
          omega)]
        apply AppendsTo.settle hsized (by omega)
        · have hback : control.rasFri +
              (control.rasNumRecs + records.length - control.rasMaxRecordCount) =
              b % control.rasMaxRecordCount + 1 + control.rasMaxRecordCount := by omega
          rw [hback, Nat.add_mod_right]
        · rw [hfullMod, Nat.min_eq_left (by omega)]

theorem AppendsTo.live (happend : AppendsTo t t' records) (hsized : Sized t.control)
    (hlength : records.length ≤ t.control.rasMaxRecordCount) :
    live t' = lastN t.control.rasMaxRecordCount (live t ++ records.map Record.toBuf) := by
  have hmax : 0 < t.control.rasMaxRecordCount := Nat.zero_lt_of_lt hsized.fri
  have hcells : ∀ c ∈ records.map Record.toBuf, c.length = rasTableRecordSize := by
    intro c hc
    obtain ⟨record, _, rfl⟩ := List.mem_map.mp hc
    exact record.toBuf_length
  have hcount : (records.map Record.toBuf).length = records.length := List.length_map ..
  unfold Ras.live
  rw [happend.fri, happend.num, happend.max, ← hcount]
  apply window_append
  · intro j hj
    have hput := (@writeRound_inside t.rom t.control.rasRecordOffset) hcells
      (Nat.mod_lt (t.control.rasFri + t.control.rasNumRecs) hmax) (by rwa [hcount]) hj
    rw [Nat.mod_add_mod] at hput
    unfold slot
    rw [happend.rom, happend.offset]
    exact hput
  · intro i _ hother
    unfold slot
    rw [happend.rom, happend.offset]
    apply writeRound_outside hcells (Nat.mod_lt _ hmax) (Nat.mod_lt _ hmax)
    intro j hj
    rw [Nat.mod_add_mod]
    exact hother j hj

end AppendTable

section Read

theorem eepromReadBuf_slots (hsized : Sized t.control) {a num : Nat}
    (hin : a + num ≤ t.control.rasMaxRecordCount) :
    eepromReadBuf t a num = ((List.range num).map fun i => slot t (a + i)).flatten := by
  have hfits := hsized.fits
  have hbytes : (a + num) * rasTableRecordSize ≤
      t.control.rasMaxRecordCount * rasTableRecordSize := Nat.mul_le_mul_right _ hin
  unfold rasTblSizeBytes at hfits
  rw [Nat.add_mul] at hbytes
  unfold eepromReadBuf rasIndexToOffset
  rw [u32_of_lt (by omega), u32_of_lt (by omega), read_cells, List.flatMap_def]
  rfl

theorem decodeRecords_flatten {cells : List (List UInt8)}
    (hcells : ∀ c ∈ cells, c.length = rasTableRecordSize) :
    decodeRecords cells.flatten cells.length = cells.map Record.ofBuf := by
  apply List.ext_getElem
  · simp [decodeRecords]
  · intro i hi _
    have hlt : i < cells.length := by simpa [decodeRecords] using hi
    have htake : ((cells.flatten.drop (i * rasTableRecordSize)).take rasTableRecordSize) =
        cells[i] := by
      have hone := @take_flatten _ (cells.drop i) (fun c hc => hcells c (List.mem_of_mem_drop hc)) 1
      rw [Nat.one_mul] at hone
      rw [drop_flatten hcells, hone, List.drop_eq_getElem_cons hlt, List.take_succ_cons,
        List.take_zero, List.flatten_singleton]
    simp only [decodeRecords, List.getElem_map, List.getElem_range, htake]

theorem slot_length (t : Table) (i : Nat) : (slot t i).length = rasTableRecordSize :=
  read_length

theorem eepromReadRound_slots (hsized : Sized t.control) {num : Nat} (hpos : 0 < num)
    (hnum : num ≤ t.control.rasNumRecs) : eepromReadRound t num =
      (window (slot t) t.control.rasMaxRecordCount t.control.rasFri num).flatten := by
  have hfits := hsized.fits
  have hfri := hsized.fri
  have hle := hsized.num
  have hmax : t.control.rasMaxRecordCount < 2 ^ 18 := by
    unfold rasTblSizeBytes rasTableRecordSize at hfits
    omega
  have hlast : u32 (t.control.rasFri + num + (2 ^ 32 - 1)) = t.control.rasFri + num - 1 :=
    u32_pred (by omega) (by omega)
  unfold eepromReadRound
  rw [window_split hfri (Nat.le_trans hnum hle), List.flatten_append, hlast]
  by_cases hin : t.control.rasFri + num - 1 < t.control.rasMaxRecordCount
  · rw [if_pos hin, eepromReadBuf_slots hsized (by omega), Nat.min_eq_left (by omega),
      Nat.sub_eq_zero_of_le (by omega)]
    simp
  · have hround : (t.control.rasFri + num - 1) % t.control.rasMaxRecordCount + 1 =
        num - (t.control.rasMaxRecordCount - t.control.rasFri) := by
      rw [Nat.mod_eq_sub_mod (by omega), Nat.mod_eq_of_lt (by omega)]
      omega
    rw [if_neg hin, hround, eepromReadBuf_slots hsized (by omega),
      eepromReadBuf_slots hsized (by omega), Nat.min_eq_right (by omega)]
    simp

theorem eepromRead_live (hsized : Sized t.control) {num : Nat} (hpos : 0 < num)
    (hnum : num ≤ t.control.rasNumRecs) :
    (eepromRead t num).1 = some (((live t).take num).map Record.ofBuf) := by
  have hwindow : (live t).take num =
      window (slot t) t.control.rasMaxRecordCount t.control.rasFri num := window_take hnum
  have hdecode := @decodeRecords_flatten
    (window (slot t) t.control.rasMaxRecordCount t.control.rasFri num) (by
      intro c hc
      obtain ⟨i, _, rfl⟩ := List.mem_map.mp hc
      exact slot_length t _)
  rw [window_length] at hdecode
  unfold eepromRead
  rw [if_neg (by omega), hwindow, eepromReadRound_slots hsized hpos hnum, hdecode]

theorem eepromRead_table (t : Table) (num : Nat) : ∃ bitmap flag, (eepromRead t num).2 =
    ⟨t.rom, { t.control with badChannelBitmap := bitmap, updateChannelFlag := flag }⟩ := by
  unfold eepromRead
  split
  · exact ⟨_, _, rfl⟩
  · obtain ⟨bitmap, flag, h⟩ :=
      noteChannels_eq t.control (decodeRecords (eepromReadRound t num) num)
    exact ⟨bitmap, flag, congrArg (Table.mk t.rom) h⟩

end Read

section Header

/-- The bytes of the table that are not records: the header up to its checksum, and the RMA info
where the version has it. -/
def headBytes (t : Table) : List UInt8 :=
  read t.rom 0 16 ++
    if rasTableVerV21 ≤ t.control.tblHdr.version then
      read t.rom rasTableV21InfoStart rasTableV21InfoSize
    else []

/-- The header in the EEPROM is the one of the control, and its checksum is minus the sum of the
bytes of the header, the RMA info and the live records. -/
structure Checked (t : Table) : Prop where
  header : read t.rom 0 rasTableHeaderSize = t.control.tblHdr.toBuf
  checksum : t.control.tblHdr.checksum = (-((headBytes t).sum + (live t).flatten.sum)).toNat

theorem TableHeader.take_toBuf (hdr : TableHeader) : hdr.toBuf.take 16 =
    leBytes 4 hdr.header ++ leBytes 4 hdr.version ++ leBytes 4 hdr.firstRecOffset ++
      leBytes 4 hdr.tblSize := by
  unfold TableHeader.toBuf
  apply List.take_left'
  simp only [List.length_append, leBytes_length]

theorem TableHeader.take_checksum (hdr : TableHeader) (checksum : Nat) :
    ({ hdr with checksum := checksum } : TableHeader).toBuf.take 16 = hdr.toBuf.take 16 := by
  rw [TableHeader.take_toBuf, TableHeader.take_toBuf]

theorem writeTable_reads (rom : Store) (control : Control) :
    read (writeTable rom control) 0 rasTableHeaderSize = control.tblHdr.toBuf ∧
      (rasTableVerV21 ≤ control.tblHdr.version →
        read (writeTable rom control) rasTableV21InfoStart rasTableV21InfoSize =
          control.tblRai.toBuf) := by
  unfold writeTable
  by_cases hv1 : rasTableVerV1 < control.tblHdr.version
  · rw [if_pos hv1]
    constructor
    · rw [read_write_outside (by left; decide), read_write_self (TableHeader.toBuf_length _)]
    · intro _
      exact read_write_self (TableRasInfo.toBuf_length _)
  · rw [if_neg hv1]
    constructor
    · exact read_write_self (TableHeader.toBuf_length _)
    · intro hv21
      exact absurd (Nat.lt_of_lt_of_le (by decide) hv21) hv1

def RecordsBehind (control : Control) : Prop :=
  rasRecordStartV21 ≤ control.rasRecordOffset ∨
    control.tblHdr.version = rasTableVerV1 ∧ rasRecordStart ≤ control.rasRecordOffset

theorem writeTable_cell (rom : Store) (i : Nat) (hbehind : RecordsBehind control) :
    cell (writeTable rom control) control.rasRecordOffset rasTableRecordSize i =
      cell rom control.rasRecordOffset rasTableRecordSize i := by
  have hhead : 0 + control.tblHdr.toBuf.length ≤ control.rasRecordOffset := by
    rw [TableHeader.toBuf_length]
    unfold RecordsBehind rasRecordStartV21 rasRecordStart at hbehind
    omega
  unfold cell writeTable
  by_cases hv1 : rasTableVerV1 < control.tblHdr.version
  · have hinfo : rasTableV21InfoStart + control.tblRai.toBuf.length ≤ control.rasRecordOffset := by
      rw [TableRasInfo.toBuf_length]
      unfold RecordsBehind rasRecordStartV21 at hbehind
      unfold rasTableV21InfoStart
      omega
    rw [if_pos hv1, read_write_outside (by omega), read_write_outside (by omega)]
  · rw [if_neg hv1, read_write_outside (by omega)]

theorem headBytes_writeTable (rom : Store) (control : Control) :
    headBytes ⟨writeTable rom control, control⟩ = control.tblHdr.toBuf.take 16 ++
      if rasTableVerV21 ≤ control.tblHdr.version then control.tblRai.toBuf else [] := by
  obtain ⟨hheader, hinfo⟩ := writeTable_reads rom control
  have hlead : read (writeTable rom control) 0 16 = control.tblHdr.toBuf.take 16 := by
    have hsize : rasTableHeaderSize = 16 + 4 := rfl
    rw [← hheader, hsize, read_add, List.take_left' read_length]
  unfold headBytes
  simp only [hlead]
  by_cases hv21 : rasTableVerV21 ≤ control.tblHdr.version
  · rw [if_pos hv21, if_pos hv21, hinfo hv21]
  · rw [if_neg hv21, if_neg hv21]

theorem sealTable_head (rom : Store) (control : Control) (buf : List UInt8) :
    headBytes (sealTable rom control buf) = control.tblHdr.toBuf.take 16 ++
      if rasTableVerV21 ≤ control.tblHdr.version then control.tblRai.toBuf else [] := by
  unfold sealTable
  simp only [headBytes_writeTable, TableHeader.take_checksum]

theorem calcChecksum_head (control : Control) (buf : List UInt8) :
    calcChecksum control buf = -((control.tblHdr.toBuf.take 16 ++
      if rasTableVerV21 ≤ control.tblHdr.version then control.tblRai.toBuf else []).sum +
        buf.sum) := by
  unfold calcChecksum calcHdrByteSum calcRasInfoByteSum
  rw [List.sum_append]
  by_cases hv21 : rasTableVerV21 ≤ control.tblHdr.version
  · rw [if_pos hv21, if_pos hv21, add_assoc, add_comm]
  · rw [if_neg hv21, if_neg hv21, List.sum_nil, add_zero, add_zero, add_comm]

theorem sealTable_checked {rom : Store} {buf : List UInt8}
    (hlive : (live (sealTable rom control buf)).flatten.sum = buf.sum) :
    Checked (sealTable rom control buf) := by
  constructor
  · exact (writeTable_reads rom (sealTable rom control buf).control).1
  · rw [hlive, sealTable_head, ← calcChecksum_head]
    rfl

theorem sealTable_live {rom : Store} {buf : List UInt8} (hbehind : RecordsBehind control) :
    live (sealTable rom control buf) = live ⟨rom, control⟩ := by
  apply List.map_congr_left
  intro i _
  exact writeTable_cell rom _ hbehind

theorem read_prefix (hsized : Sized t.control) :
    read t.rom t.control.rasRecordOffset (u32 (t.control.rasNumRecs * rasTableRecordSize)) =
      (window (slot t) t.control.rasMaxRecordCount 0 t.control.rasNumRecs).flatten := by
  have hfits := hsized.fits
  have hbytes : t.control.rasNumRecs * rasTableRecordSize ≤
      t.control.rasMaxRecordCount * rasTableRecordSize := Nat.mul_le_mul_right _ hsized.num
  unfold rasTblSizeBytes at hfits
  have hcells := read_cells t.rom t.control.rasRecordOffset rasTableRecordSize 0
    t.control.rasNumRecs
  rw [Nat.zero_mul, Nat.add_zero] at hcells
  rw [u32_of_lt (by omega), hcells, List.flatMap_def]
  congr 1
  apply List.map_congr_left
  intro i hi
  have hlt : i < t.control.rasMaxRecordCount :=
    Nat.lt_of_lt_of_le (List.mem_range.mp hi) hsized.num
  rw [Nat.zero_add, Nat.mod_eq_of_lt hlt]
  rfl

def PrefixLive (control : Control) : Prop :=
  control.rasFri = 0 ∨ control.rasNumRecs = control.rasMaxRecordCount

theorem eepromUpdateHeader_live (hbehind : RecordsBehind t.control) :
    live (eepromUpdateHeader t saved) = live t :=
  sealTable_live hbehind

@[simp] theorem eepromUpdateHeader_offset :
    (eepromUpdateHeader t saved).control.rasRecordOffset = t.control.rasRecordOffset := rfl

@[simp] theorem eepromUpdateHeader_max :
    (eepromUpdateHeader t saved).control.rasMaxRecordCount = t.control.rasMaxRecordCount := rfl

theorem eepromUpdateHeader_sized (hsized : Sized t.control) :
    Sized (eepromUpdateHeader t saved).control :=
  ⟨hsized.fits, hsized.fri, hsized.num⟩

theorem eepromUpdateHeader_checked (hsized : Sized t.control) (hbehind : RecordsBehind t.control)
    (hlead : PrefixLive t.control) : Checked (eepromUpdateHeader t saved) := by
  apply sealTable_checked
  rw [← eepromUpdateHeader, eepromUpdateHeader_live hbehind, read_prefix hsized]
  unfold live
  rcases hlead with hfri | hnum
  · rw [hfri]
  · rw [hnum]
    exact window_full.flatten.sum_eq

theorem eepromResetTable_checked (t : Table) : Checked (eepromResetTable t) :=
  sealTable_checked rfl

end Header

section Runs

/-- The table with the records that it should have, whether it was written since the start, and for
each append that is refused the table before it and after it. -/
structure FifoSys where
  table : Table
  appended : List Record
  written : Bool
  refused : List (Table × Table)

inductive FifoEvent
  /-- `saved` records are in the cache -/
  | append (records : List Record) (saved : Nat)
  | read (num : Nat)
  | reset

/-- No record, or more than the table has room for at all. -/
def OutOfRange (control : Control) (records : List Record) : Prop :=
  records.length = 0 ∨ control.rasMaxRecordCount < records.length

instance (control : Control) (records : List Record) : Decidable (OutOfRange control records) :=
  inferInstanceAs (Decidable (_ ∨ _))

def fifoNext (s : FifoSys) : FifoEvent → FifoSys
  | .append records saved =>
    let after := (eepromAppend s.table records saved).2
    if OutOfRange s.table.control records then
      { s with table := after, refused := s.refused ++ [(s.table, after)] }
    else
      { s with
        table := after
        appended := s.appended ++ records.map Record.stored
        written := true }
  | .read num => { s with table := (eepromRead s.table num).2 }
  | .reset => { s with table := eepromResetTable s.table, appended := [], written := true }

def fifoStep (s : FifoSys) (e : FifoEvent) (s' : FifoSys) : Prop := s' = fifoNext s e

/-- What `__ras_table_init` gives: the layout of the version, with any first index. -/
structure Initialised (control : Control) : Prop where
  layout : control.tblHdr.version = rasTableVerV1 ∧ control.rasRecordOffset = rasRecordStart ∧
      control.rasMaxRecordCount = rasMaxRecordCount ∨
    (control.tblHdr.version = rasTableVerV21 ∨ control.tblHdr.version = rasTableVerV3) ∧
      control.rasRecordOffset = rasRecordStartV21 ∧
      control.rasMaxRecordCount = rasMaxRecordCountV21
  fri : control.rasFri < control.rasMaxRecordCount
  num : control.rasNumRecs ≤ control.rasMaxRecordCount

structure FifoStart (s : FifoSys) : Prop where
  initialised : Initialised s.table.control
  appended : s.appended = (live s.table).map Record.ofBuf
  written : s.written = false
  refused : s.refused = []

def readAll (t : Table) : Option (List Record) :=
  if t.control.rasNumRecs = 0 then some [] else (eepromRead t t.control.rasNumRecs).1

structure FifoHolds (s : FifoSys) : Prop where
  last : readAll s.table = some (lastN s.table.control.rasMaxRecordCount s.appended)
  checked : s.written = true → Checked s.table
  refused : ∀ p ∈ s.refused, p.1 = p.2

/-- An append of records for which there is room, that the first slots are the live ones after, and
in front of which the header and the RMA info are; or one that is out of range by 32 bits too. -/
def Roomy (s : FifoSys) : FifoEvent → Prop
  | .append records _ =>
    if OutOfRange s.table.control records then
      records.length + s.table.control.rasNumRecs < 2 ^ 32
    else
      records.length + s.table.control.rasNumRecs ≤ s.table.control.rasMaxRecordCount ∧
      (s.table.control.rasFri = 0 ∨
        records.length + s.table.control.rasNumRecs = s.table.control.rasMaxRecordCount) ∧
      (s.table.control.tblHdr.version = rasTableVerV1 ∨
        s.table.control.rasRecordOffset = rasRecordStartV21)
  | _ => True

def RoomyRun : FifoSys → Prop := Transition.Run FifoStart fifoStep Roomy

structure FifoInv (s : FifoSys) : Prop where
  sized : Sized s.table.control
  behind : rasRecordStart ≤ s.table.control.rasRecordOffset
  last : (live s.table).map Record.ofBuf =
    lastN s.table.control.rasMaxRecordCount s.appended
  checked : s.written = true → Checked s.table
  refused : ∀ p ∈ s.refused, p.1 = p.2

theorem eepromAppend_fits (hsized : Sized t.control) (hpos : 0 < records.length)
    (hroom : records.length + t.control.rasNumRecs ≤ t.control.rasMaxRecordCount) :
    eepromAppend t records saved = (.ok, eepromUpdateHeader (eepromAppendTable t records) saved) := by
  have hfits := hsized.fits
  unfold rasTblSizeBytes rasTableRecordSize at hfits
  unfold eepromAppend
  rw [if_neg (by omega), u32_of_lt (by omega), if_neg (by omega)]

theorem eepromAppend_refused (hout : OutOfRange t.control records)
    (hwraps : records.length + t.control.rasNumRecs < 2 ^ 32) :
    eepromAppend t records saved = (.einval, t) := by
  unfold eepromAppend
  rcases hout with hzero | hmany
  · rw [if_pos hzero]
  · by_cases hzero : records.length = 0
    · rw [if_pos hzero]
    · rw [if_neg hzero, u32_of_lt hwraps, if_pos (by omega)]

theorem eepromAppend_einval (h : (eepromAppend t records saved).1 = .einval) :
    (eepromAppend t records saved).2 = t := by
  unfold eepromAppend at h ⊢
  split
  · rfl
  · rename_i hsome
    rw [if_neg hsome] at h
    split
    · rfl
    · rename_i hfits
      rw [if_neg hfits] at h
      cases h

theorem AppendsTo.sized (happend : AppendsTo t t' records) (hsized : Sized t.control) :
    Sized t'.control := by
  constructor
  · rw [happend.offset, happend.max]
    exact hsized.fits
  · rw [happend.fri, happend.max]
    exact Nat.mod_lt _ (Nat.zero_lt_of_lt hsized.fri)
  · rw [happend.num, happend.max]
    exact Nat.min_le_left ..

theorem AppendsTo.prefixLive (happend : AppendsTo t t' records) (hsized : Sized t.control)
    (hroom : records.length + t.control.rasNumRecs ≤ t.control.rasMaxRecordCount)
    (hfirst : t.control.rasFri = 0 ∨
      records.length + t.control.rasNumRecs = t.control.rasMaxRecordCount) :
    PrefixLive t'.control := by
  unfold PrefixLive
  rw [happend.fri, happend.num, happend.max, Nat.sub_eq_zero_of_le (by omega), Nat.add_zero,
    Nat.mod_eq_of_lt hsized.fri]
  omega

theorem AppendsTo.reads (happend : AppendsTo t t' records) (hsized : Sized t.control)
    (hlength : records.length ≤ t.control.rasMaxRecordCount) :
    (Ras.live t').map Record.ofBuf = lastN t.control.rasMaxRecordCount
      ((Ras.live t).map Record.ofBuf ++ records.map Record.stored) := by
  have hstored : Record.ofBuf ∘ Record.toBuf = Record.stored := funext Record.ofBuf_toBuf
  rw [happend.live hsized hlength, lastN_map, List.map_append, List.map_map, hstored]

theorem AppendsTo.sealed {after : Table} (happend : AppendsTo t after records)
    (hsized : Sized t.control) (hbehind : RecordsBehind t.control)
    (hroom : records.length + t.control.rasNumRecs ≤ t.control.rasMaxRecordCount) :
    Sized (eepromUpdateHeader after saved).control ∧
      RecordsBehind (eepromUpdateHeader after saved).control ∧
      (eepromUpdateHeader after saved).control.rasNumRecs =
        t.control.rasNumRecs + records.length ∧
      (Ras.live (eepromUpdateHeader after saved)).map Record.ofBuf =
        (Ras.live t).map Record.ofBuf ++ records.map Record.stored := by
  have hnum := happend.num
  rw [Nat.min_eq_right (by omega)] at hnum
  have hbehind' : RecordsBehind after.control := by
    unfold RecordsBehind at hbehind ⊢
    rwa [happend.offset, happend.tblHdr]
  refine ⟨eepromUpdateHeader_sized (happend.sized hsized), hbehind', hnum, ?_⟩
  rw [eepromUpdateHeader_live hbehind', happend.reads hsized (by omega), lastN_of_le]
  simp only [List.length_append, List.length_map, Ras.live, window_length]
  omega

theorem eepromAppend_ok (hsized : Sized t.control) (hbehind : RecordsBehind t.control)
    (hlength : records.length + t.control.rasNumRecs < 2 ^ 32)
    (hok : (eepromAppend t records saved).1 = .ok) :
    Sized (eepromAppend t records saved).2.control ∧
      RecordsBehind (eepromAppend t records saved).2.control ∧
      (eepromAppend t records saved).2.control.rasNumRecs =
        t.control.rasNumRecs + records.length ∧
      (live (eepromAppend t records saved).2).map Record.ofBuf =
        (live t).map Record.ofBuf ++ records.map Record.stored := by
  by_cases hout : OutOfRange t.control records
  · rw [eepromAppend_refused hout hlength] at hok
    cases hok
  · unfold OutOfRange at hout
    have hroom : records.length + t.control.rasNumRecs ≤ t.control.rasMaxRecordCount := by
      by_contra hmany
      unfold eepromAppend at hok
      rw [if_neg (by omega), u32_of_lt hlength, if_pos (by omega)] at hok
      cases hok
    have happend : AppendsTo t (eepromAppendTable t records) records :=
      eepromAppendTable_spec hsized (by omega) (by omega)
    rw [eepromAppend_fits hsized (by omega) hroom]
    exact happend.sealed hsized hbehind hroom

variable {s : FifoSys}

theorem FifoInv.appended {after : Table} (h : FifoInv s)
    (happend : AppendsTo s.table after records)
    (hroom : records.length + s.table.control.rasNumRecs ≤ s.table.control.rasMaxRecordCount)
    (hfirst : s.table.control.rasFri = 0 ∨
      records.length + s.table.control.rasNumRecs = s.table.control.rasMaxRecordCount)
    (hlayout : s.table.control.tblHdr.version = rasTableVerV1 ∨
      s.table.control.rasRecordOffset = rasRecordStartV21) :
    FifoInv ⟨eepromUpdateHeader after saved, s.appended ++ records.map Record.stored, true,
      s.refused⟩ := by
  have hsized := happend.sized h.sized
  have hbehind : RecordsBehind after.control := by
    unfold RecordsBehind
    rw [happend.offset, happend.tblHdr]
    rcases hlayout with hv1 | hoffset
    · exact .inr ⟨hv1, h.behind⟩
    · exact .inl (Nat.le_of_eq hoffset.symm)
  constructor
  · exact eepromUpdateHeader_sized hsized
  · rw [eepromUpdateHeader_offset, happend.offset]
    exact h.behind
  · rw [eepromUpdateHeader_max, eepromUpdateHeader_live hbehind, happend.max,
      happend.reads h.sized (by omega), h.last, lastN_append]
  · intro _
    exact eepromUpdateHeader_checked hsized hbehind (happend.prefixLive h.sized hroom hfirst)
  · exact h.refused

theorem FifoInv.append (h : FifoInv s) (hin : ¬ OutOfRange s.table.control records)
    (hroomy : Roomy s (.append records saved)) :
    FifoInv (fifoNext s (.append records saved)) := by
  simp only [Roomy, if_neg hin] at hroomy
  obtain ⟨hroom, hfirst, hlayout⟩ := hroomy
  have hpos : 0 < records.length := by
    unfold OutOfRange at hin
    omega
  have happend := eepromAppendTable_spec h.sized hpos (by omega)
  unfold fifoNext
  simp only [if_neg hin, eepromAppend_fits h.sized hpos hroom]
  exact h.appended happend hroom hfirst hlayout

theorem FifoInv.refuse (h : FifoInv s) (hout : OutOfRange s.table.control records)
    (hroomy : Roomy s (.append records saved)) :
    FifoInv (fifoNext s (.append records saved)) := by
  simp only [Roomy, if_pos hout] at hroomy
  unfold fifoNext
  simp only [if_pos hout, eepromAppend_refused hout hroomy]
  refine ⟨h.sized, h.behind, h.last, h.checked, ?_⟩
  intro p hp
  rcases List.mem_append.mp hp with hp | hp
  · exact h.refused p hp
  · rw [List.mem_singleton.mp hp]

theorem FifoInv.step (h : FifoInv s) (e : FifoEvent) (hroomy : Roomy s e) :
    FifoInv (fifoNext s e) := by
  cases e with
  | append records saved =>
    by_cases hout : OutOfRange s.table.control records
    · exact h.refuse hout hroomy
    · exact h.append hout hroomy
  | read num =>
    obtain ⟨bitmap, flag, hread⟩ := eepromRead_table s.table num
    unfold fifoNext
    simp only [hread]
    refine ⟨⟨h.sized.fits, h.sized.fri, h.sized.num⟩, h.behind, h.last, ?_, h.refused⟩
    intro hwritten
    exact ⟨(h.checked hwritten).header, (h.checked hwritten).checksum⟩
  | reset =>
    unfold fifoNext
    refine ⟨⟨h.sized.fits, Nat.zero_lt_of_lt h.sized.fri, Nat.zero_le _⟩, h.behind, ?_, ?_,
      h.refused⟩
    · simp [live, window, lastN, eepromResetTable, sealTable]
    · intro _
      exact eepromResetTable_checked s.table

theorem Initialised.sized (h : Initialised control) : Sized control := by
  refine ⟨?_, h.fri, h.num⟩
  rcases h.layout with ⟨_, hoffset, hmax⟩ | ⟨_, hoffset, hmax⟩
  · rw [hoffset, hmax]
    decide
  · rw [hoffset, hmax]
    decide

theorem FifoInv.start (hstart : FifoStart s) : FifoInv s := by
  obtain ⟨hinitialised, happended, hwritten, hrefused⟩ := hstart
  refine ⟨hinitialised.sized, ?_, ?_, ?_, ?_⟩
  · rcases hinitialised.layout with ⟨_, hoffset, _⟩ | ⟨_, hoffset, _⟩
    · exact Nat.le_of_eq hoffset.symm
    · rw [hoffset]
      decide
  · rw [happended, lastN_of_le]
    rw [List.length_map, live, window_length]
    exact hinitialised.num
  · intro h
    rw [hwritten] at h
    exact absurd h Bool.false_ne_true
  · rw [hrefused]
    exact fun p hp => absurd hp List.not_mem_nil

theorem readAll_live (hsized : Sized t.control) :
    readAll t = some ((live t).map Record.ofBuf) := by
  unfold readAll
  by_cases hzero : t.control.rasNumRecs = 0
  · rw [if_pos hzero]
    simp [live, window, hzero]
  · rw [if_neg hzero, eepromRead_live hsized (by omega) (Nat.le_refl _)]
    congr 2
    apply List.take_of_length_le
    exact Nat.le_of_eq window_length

theorem FifoInv.holds (h : FifoInv s) : FifoHolds s := by
  refine ⟨?_, h.checked, h.refused⟩
  rw [readAll_live h.sized, h.last]

/-- In every run whose appends have room, over a table whose first slots are the live ones, the table
is the list of the last records, its checksum is right and what is refused leaves it alone. -/
theorem eeprom_fifo (s : FifoSys) (hrun : RoomyRun s) : FifoHolds s := by
  have hinv : FifoInv s := by
    apply hrun.invariant FifoInv
    · intro s hstart
      exact .start hstart
    · intro before e after h hroomy hstep
      rw [hstep]
      exact h.step e hroomy
  exact hinv.holds

def emptyControl (fri : Nat) : Control where
  tblHdr := ⟨rasTableHdrVal, rasTableVerV3, rasRecordStartV21 + fri * rasTableRecordSize,
    rasTableHeaderSize + rasTableV21InfoSize, 0⟩
  tblRai := ⟨0, 0, 0⟩
  recordThresholdCount := 10
  updateChannelFlag := false
  rasRecordOffset := rasRecordStartV21
  rasNumRecs := 0
  rasFri := fri
  rasMaxRecordCount := rasMaxRecordCountV21
  badChannelBitmap := 0

def emptyTable (fri : Nat) : FifoSys := ⟨⟨fun _ => 0, emptyControl fri⟩, [], false, []⟩

theorem emptyTable_start {fri : Nat} (h : fri < rasMaxRecordCountV21) :
    FifoStart (emptyTable fri) :=
  ⟨⟨.inr ⟨.inr rfl, rfl, rfl⟩, h, Nat.zero_le _⟩, rfl, rfl, rfl⟩

def onePage : Record := ⟨2, 1, 0, 0x1000, 3, 4, 0x77⟩

def otherPage : Record := { onePage with retiredRowPfn := 0x88 }

/-- Two records, an append that is refused as it has none, and a third record. -/
theorem eeprom_fifo_three : ∃ s : FifoSys, RoomyRun s ∧ FifoHolds s ∧ s.written = true ∧
    s.refused.length = 1 ∧ readAll s.table = some [onePage, otherPage, onePage] := by
  have h0 : RoomyRun (emptyTable 0) := .start (emptyTable_start (by decide))
  have h1 : RoomyRun _ := .next (.append [onePage, otherPage] 1) h0 (by
    simp only [Roomy]
    rw [if_neg (by decide)]
    exact ⟨by decide, .inl rfl, .inr rfl⟩) rfl
  have h2 : RoomyRun _ := .next (.append [] 1) h1 (by
    simp only [Roomy]
    rw [if_pos (.inl rfl)]
    decide) rfl
  have h3 : RoomyRun _ := .next (.append [onePage] 1) h2 (by
    simp only [Roomy]
    rw [if_neg (by decide)]
    exact ⟨by decide, .inl rfl, .inr rfl⟩) rfl
  exact ⟨_, h3, eeprom_fifo _ h3, rfl, rfl, by decide +kernel⟩

def FifoRun : FifoSys → Prop := Transition.Run FifoStart fifoStep Transition.always

/-- The first index is 1, so the record is in slot 1 and the checksum is taken of slot 0. -/
theorem first_slot_summed : ¬ ∀ s : FifoSys, FifoRun s → FifoHolds s := by
  intro h
  have h0 : FifoRun (emptyTable 1) := .start (emptyTable_start (by decide))
  have h1 : FifoRun _ := .next (.append [onePage] 1) h0 trivial rfl
  have hchecked := ((h _ h1).checked rfl).checksum
  revert hchecked
  decide +kernel

end Runs

end MxGpu.Ras
