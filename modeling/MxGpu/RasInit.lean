import MxGpu.RasFifo

/- The table that init finds in the EEPROM, or makes (`__ras_table_init`). -/
namespace MxGpu.Ras

open ByteStore SlotRing

/-- `a - b` of 32 bits. -/
def u32Sub (a b : Nat) : Nat := u32 (a + (2 ^ 32 - b))

def rasNumRecs (hdr : TableHeader) : Nat :=
  u32Sub hdr.tblSize rasTableHeaderSize / rasTableRecordSize

/-- `RAS_NUM_RECS_V2_1` -/
def rasNumRecsV21 (hdr : TableHeader) : Nat :=
  u32Sub hdr.tblSize (rasTableHeaderSize + rasTableV21InfoSize) / rasTableRecordSize

def rasOffsetToIndex (control : Control) (offset : Nat) : Nat :=
  u32Sub offset control.rasRecordOffset / rasTableRecordSize

def versionLayout (hdr : TableHeader) : Option (Nat × Nat × Nat) :=
  if hdr.version = rasTableVerV21 ∨ hdr.version = rasTableVerV3 then
    some (rasNumRecsV21 hdr, rasRecordStartV21, rasMaxRecordCountV21)
  else if hdr.version = rasTableVerV1 then
    some (rasNumRecs hdr, rasRecordStart, rasMaxRecordCount)
  else none

def romHeader (rom : Store) : TableHeader := TableHeader.ofBuf (read rom 0 rasTableHeaderSize)

def Tagged (hdr : TableHeader) : Prop :=
  hdr.header = rasTableHdrVal ∨ hdr.header = rasTableHdrBad

instance (hdr : TableHeader) : Decidable (Tagged hdr) := inferInstanceAs (Decidable (_ ∨ _))

def rasTableInit (t : Table) : Status × Table :=
  let hdr := romHeader t.rom
  let c := { t.control with tblHdr := hdr }
  if ¬ Tagged hdr then (.ok, eepromResetTable ⟨t.rom, c⟩)
  else
    match versionLayout hdr with
    | none => (.einval, ⟨t.rom, c⟩)
    | some (num, offset, max) =>
      let c := { c with rasNumRecs := num, rasRecordOffset := offset, rasMaxRecordCount := max }
      if max < num then (.einval, ⟨t.rom, c⟩)
      else (.ok, ⟨t.rom, { c with rasFri := rasOffsetToIndex c hdr.firstRecOffset }⟩)

/-- `ras_eeprom_sw_init`: a control of zeros. -/
def swInit (threshold : Nat) : Control :=
  ⟨⟨0, 0, 0, 0, 0⟩, ⟨0, 0, 0⟩, threshold, false, 0, 0, 0, 0, 0⟩

/-- A table that can be used: the control is the one of the header in the EEPROM and has its layout,
and a record can be appended and is read then as the last one. -/
structure Usable (t : Table) : Prop where
  header : romHeader t.rom = t.control.tblHdr
  initialised : Initialised t.control
  append : ∀ (record : Record) (saved : Nat), (eepromAppend t [record] saved).1 = .ok ∧
    ∃ earlier, readAll (eepromAppend t [record] saved).2 = some (earlier ++ [record.stored])

/-- What init needs: a table whose first index is in it and that is not full; or, when there is no
table, a control that has the layout of a new table already. -/
def InitSound (control : Control) (hdr : TableHeader) : Prop :=
  if Tagged hdr then
    ∀ layout ∈ versionLayout hdr, layout.1 < layout.2.2 ∧
      u32Sub hdr.firstRecOffset layout.2.1 / rasTableRecordSize < layout.2.2
  else control.rasRecordOffset = rasRecordStartV21 ∧
    control.rasMaxRecordCount = rasMaxRecordCountV21

variable {t : Table} {control : Control}

theorem Initialised.behind (h : Initialised control) : RecordsBehind control := by
  rcases h.layout with ⟨hversion, hoffset, _⟩ | ⟨_, hoffset, _⟩
  · exact .inr ⟨hversion, Nat.le_of_eq hoffset.symm⟩
  · exact .inl (Nat.le_of_eq hoffset.symm)

theorem append_one (h : Initialised t.control)
    (hroom : t.control.rasNumRecs < t.control.rasMaxRecordCount) (record : Record) (saved : Nat) :
    (eepromAppend t [record] saved).1 = .ok ∧
      ∃ earlier, readAll (eepromAppend t [record] saved).2 = some (earlier ++ [record.stored]) := by
  have happend : AppendsTo t (eepromAppendTable t [record]) [record] :=
    eepromAppendTable_spec h.sized (by simp) (by simp only [List.length_singleton]; omega)
  obtain ⟨hsized, _, _, hlive⟩ := happend.sealed h.sized h.behind
    (by simp only [List.length_singleton]; omega)
  rw [eepromAppend_fits h.sized (by simp) (by simp only [List.length_singleton]; omega)]
  refine ⟨rfl, (live t).map Record.ofBuf, ?_⟩
  rw [readAll_live hsized, hlive]
  rfl

theorem append_full (h : Initialised t.control)
    (hfull : t.control.rasNumRecs = t.control.rasMaxRecordCount) (record : Record) (saved : Nat) :
    (eepromAppend t [record] saved).1 = .einval := by
  have hfits := h.sized.fits
  unfold rasTblSizeBytes rasTableRecordSize at hfits
  unfold eepromAppend
  rw [if_neg (by simp), List.length_singleton, u32_of_lt (by omega), if_pos (by omega)]

theorem rasTableInit_found (htag : Tagged (romHeader t.rom)) (hok : (rasTableInit t).1 = .ok) :
    ∃ num offset max, versionLayout (romHeader t.rom) = some (num, offset, max) ∧ num ≤ max ∧
      (rasTableInit t).2 = ⟨t.rom, { t.control with
        tblHdr := romHeader t.rom
        rasNumRecs := num
        rasRecordOffset := offset
        rasMaxRecordCount := max
        rasFri := u32Sub (romHeader t.rom).firstRecOffset offset / rasTableRecordSize }⟩ := by
  unfold rasTableInit at hok ⊢
  simp only [htag, not_true_eq_false, if_false] at hok ⊢
  cases hlayout : versionLayout (romHeader t.rom) with
  | none =>
    rw [hlayout] at hok
    cases hok
  | some layout =>
    obtain ⟨num, offset, max⟩ := layout
    rw [hlayout] at hok
    simp only at hok ⊢
    by_cases hmany : max < num
    · rw [if_pos hmany] at hok
      cases hok
    · refine ⟨num, offset, max, rfl, by omega, ?_⟩
      rw [if_neg hmany]
      rfl

theorem rasTableInit_blank (htag : ¬ Tagged (romHeader t.rom)) :
    rasTableInit t =
      (.ok, eepromResetTable ⟨t.rom, { t.control with tblHdr := romHeader t.rom }⟩) := by
  unfold rasTableInit
  simp only [htag, not_false_eq_true, if_true]

theorem versionLayout_some {hdr : TableHeader} {num offset max : Nat}
    (h : versionLayout hdr = some (num, offset, max)) :
    hdr.version = rasTableVerV1 ∧ offset = rasRecordStart ∧ max = rasMaxRecordCount ∨
      (hdr.version = rasTableVerV21 ∨ hdr.version = rasTableVerV3) ∧
        offset = rasRecordStartV21 ∧ max = rasMaxRecordCountV21 := by
  unfold versionLayout at h
  by_cases hnew : hdr.version = rasTableVerV21 ∨ hdr.version = rasTableVerV3
  · rw [if_pos hnew] at h
    cases h
    exact .inr ⟨hnew, rfl, rfl⟩
  · rw [if_neg hnew] at h
    by_cases hold : hdr.version = rasTableVerV1
    · rw [if_pos hold] at h
      cases h
      exact .inl ⟨hold, rfl, rfl⟩
    · rw [if_neg hold] at h
      cases h

theorem TableHeader.ofBuf_toBuf {hdr : TableHeader} (hheader : hdr.header < 2 ^ 32)
    (hversion : hdr.version < 2 ^ 32) (hfirst : hdr.firstRecOffset < 2 ^ 32)
    (hsize : hdr.tblSize < 2 ^ 32) (hsum : hdr.checksum < 2 ^ 32) :
    TableHeader.ofBuf hdr.toBuf = hdr := by
  have hread : ∀ value < 2 ^ 32, ofLe (leBytes 4 value) = value := by
    intro value h
    rw [ofLe_leBytes]
    exact Nat.mod_eq_of_lt h
  have h0 : hdr.toBuf.take 4 = leBytes 4 hdr.header := by
    unfold TableHeader.toBuf
    simp only [List.append_assoc]
    exact List.take_left' (leBytes_length ..)
  have h1 : (hdr.toBuf.drop 4).take 4 = leBytes 4 hdr.version := by
    unfold TableHeader.toBuf
    simp only [List.append_assoc]
    exact take_drop_field (leBytes_length ..) (leBytes_length ..)
  have h2 : (hdr.toBuf.drop 8).take 4 = leBytes 4 hdr.firstRecOffset := by
    unfold TableHeader.toBuf
    rw [List.append_assoc, List.append_assoc]
    exact take_drop_field (by simp) (leBytes_length ..)
  have h3 : (hdr.toBuf.drop 12).take 4 = leBytes 4 hdr.tblSize := by
    unfold TableHeader.toBuf
    rw [List.append_assoc]
    exact take_drop_field (by simp) (leBytes_length ..)
  have h4 : (hdr.toBuf.drop 16).take 4 = leBytes 4 hdr.checksum := by
    unfold TableHeader.toBuf
    rw [← List.append_nil (_ ++ leBytes 4 hdr.checksum), List.append_assoc]
    exact take_drop_field (by simp) (leBytes_length ..)
  unfold TableHeader.ofBuf
  rw [h0, h1, h2, h3, h4, hread _ hheader, hread _ hversion, hread _ hfirst, hread _ hsize,
    hread _ hsum]

theorem eepromResetTable_header (t : Table) :
    romHeader (eepromResetTable t).rom = (eepromResetTable t).control.tblHdr := by
  unfold romHeader
  rw [(eepromResetTable_checked t).header]
  apply TableHeader.ofBuf_toBuf
  · show rasTableHdrVal < 2 ^ 32
    decide
  · show rasTableVerV3 < 2 ^ 32
    decide
  · show rasRecordStartV21 < 2 ^ 32
    decide
  · show rasTableHeaderSize + rasTableV21InfoSize < 2 ^ 32
    decide
  · rw [(eepromResetTable_checked t).checksum]
    exact Nat.lt_trans (UInt8.toNat_lt _) (by decide)

theorem reset_usable_iff (t : Table) : Usable (eepromResetTable t) ↔
    t.control.rasRecordOffset = rasRecordStartV21 ∧
      t.control.rasMaxRecordCount = rasMaxRecordCountV21 := by
  constructor
  · intro h
    rcases h.initialised.layout with ⟨hversion, _, _⟩ | ⟨_, hoffset, hmax⟩
    · exact absurd hversion (by decide : ¬ rasTableVerV3 = rasTableVerV1)
    · exact ⟨hoffset, hmax⟩
  · intro ⟨hoffset, hmax⟩
    have hpos : 0 < t.control.rasMaxRecordCount := by
      rw [hmax]
      decide
    have hinitialised : Initialised (eepromResetTable t).control :=
      ⟨.inr ⟨.inr rfl, hoffset, hmax⟩, hpos, Nat.zero_le _⟩
    exact ⟨eepromResetTable_header t, hinitialised, append_one hinitialised hpos⟩

/-- Whenever init succeeds, the table can be used exactly when there was one that is not full and
whose first index is in it, or when there was none and the control has the layout of a new one. -/
theorem init_usable_iff (t : Table) (hok : (rasTableInit t).1 = .ok) :
    Usable (rasTableInit t).2 ↔ InitSound t.control (romHeader t.rom) := by
  unfold InitSound
  by_cases htag : Tagged (romHeader t.rom)
  · rw [if_pos htag]
    obtain ⟨num, offset, max, hlayout, hle, hinit⟩ := rasTableInit_found htag hok
    rw [hinit, hlayout]
    have hversion := versionLayout_some hlayout
    constructor
    · intro h layout hsome
      cases hsome
      refine ⟨?_, h.initialised.fri⟩
      by_contra hfull
      have hmax : num = max := Nat.le_antisymm hle (Nat.not_lt.mp hfull)
      have hrefused := append_full h.initialised hmax ⟨0, 0, 0, 0, 0, 0, 0⟩ 1
      rw [(h.append _ 1).1] at hrefused
      cases hrefused
    · intro h
      obtain ⟨hroom, hfri⟩ := h _ rfl
      exact ⟨rfl, ⟨hversion, hfri, hle⟩, append_one ⟨hversion, hfri, hle⟩ hroom⟩
  · rw [if_neg htag, rasTableInit_blank htag]
    exact reset_usable_iff _

def freshRom : Store := (eepromResetTable ⟨fun _ => 0xff, emptyControl 0⟩).rom

/-- A table that was made earlier can be used. -/
theorem init_usable_fresh : (rasTableInit ⟨freshRom, swInit 10⟩).1 = .ok ∧
    Usable (rasTableInit ⟨freshRom, swInit 10⟩).2 := by
  have hok : (rasTableInit ⟨freshRom, swInit 10⟩).1 = .ok := by decide +kernel
  have hlayout : versionLayout (romHeader freshRom) =
      some (0, rasRecordStartV21, rasMaxRecordCountV21) := by decide +kernel
  refine ⟨hok, (init_usable_iff _ hok).mpr ?_⟩
  unfold InitSound
  rw [if_pos (by decide +kernel)]
  intro layout hsome
  rw [hlayout] at hsome
  cases hsome
  decide +kernel

/-- A blank EEPROM: init makes a table and succeeds, and the control has no room for a record. -/
theorem blank_unusable : (rasTableInit ⟨fun _ => 0xff, swInit 10⟩).1 = .ok ∧
    ¬ Usable (rasTableInit ⟨fun _ => 0xff, swInit 10⟩).2 := by
  refine ⟨by decide +kernel, fun h => ?_⟩
  have hrefused : (eepromAppend (rasTableInit ⟨fun _ => 0xff, swInit 10⟩).2 [onePage] 1).1 =
      .einval := by decide +kernel
  rw [(h.append onePage 1).1] at hrefused
  cases hrefused

end MxGpu.Ras
