import MxGpu.EepromRuns

/- The upgrade keeps the rows of a table if and only if the rows that it loads are those of the
records: the number of pages is compared with a number of records, and a page that was translated may
no longer be one of a legacy record. -/
namespace MxGpu.UmcV12.Upgrade

section Rows

variable {adapt : Adapter} {record other : EepromTableRecord} {page : Nat}

theorem mem_pages_of_firstPage (same : firstPage adapt record = firstPage adapt other)
    (page : Nat) :
    page ∈ eepromRecordToPages adapt record ↔ page ∈ eepromRecordToPages adapt other := by
  rw [mem_eepromRecordToPages, mem_eepromRecordToPages,
    ← rowPage_of_mem (rowPage_firstPage adapt record), same,
    rowPage_of_mem (rowPage_firstPage adapt other)]

theorem firstPage_mem (adapt : Adapter) (record : EepromTableRecord) :
    firstPage adapt record ∈ eepromRecordToPages adapt record :=
  mem_eepromRecordToPages.mpr (rowPage_firstPage adapt record)

theorem firstPage_congr
    (same : ∀ page, page ∈ eepromRecordToPages adapt record ↔
      page ∈ eepromRecordToPages adapt other) :
    firstPage adapt record = firstPage adapt other :=
  Nat.le_antisymm
    (firstPage_le (mem_eepromRecordToPages.mp ((same _).mpr (firstPage_mem adapt other))))
    (firstPage_le (mem_eepromRecordToPages.mp ((same _).mp (firstPage_mem adapt record))))

theorem firstPage_of_mem (inside : page ∈ eepromRecordToPages adapt record)
    (inside' : page ∈ eepromRecordToPages adapt other) :
    firstPage adapt record = firstPage adapt other := by
  apply firstPage_congr
  intro page'
  rw [mem_eepromRecordToPages] at inside inside'
  rw [mem_eepromRecordToPages, mem_eepromRecordToPages, ← rowPage_of_mem inside,
    rowPage_of_mem inside']

theorem eepromRecordToPa_mem (adapt : Adapter) (record : EepromTableRecord) :
    eepromRecordToPa adapt record ∈ eepromRecordToPages adapt record :=
  mem_eepromRecordToPages.mpr (rowPage_eepromRecordToPa adapt record)

end Rows

section Rewritten

variable {adapt : Adapter} {record : EepromTableRecord}

theorem firstPage_lt (narrow : record.retiredPage < 2 ^ 48) : firstPage adapt record < 2 ^ 40 :=
  rowPage_lt (memAddr_lt narrow) (rowPage_firstPage adapt record)

theorem untag_rewritten (narrow : record.retiredPage < 2 ^ 48) :
    setNpsToPa (rewritten adapt record).retiredPage 0 = firstPage adapt record := by
  have untagged := setNpsToPa_zero (firstPage adapt record) adapt.nps_lt
  rwa [setNpsToPa_of_lt (firstPage_lt narrow)] at untagged

theorem getNpsFromPa_rewritten (adapt : Adapter) (record : EepromTableRecord) :
    getNpsFromPa (rewritten adapt record).retiredPage = adapt.nps :=
  getNpsFromPa_setNpsToPa _ adapt.nps_lt

theorem memAddr_rewritten (narrow : record.retiredPage < 2 ^ 48) :
    memAddr adapt (rewritten adapt record) = firstPage adapt record * 2 ^ 12 := by
  rw [memAddr, if_neg (not_not.mpr (getNpsFromPa_rewritten adapt record)), untag_rewritten narrow]

theorem eepromRecordToPa_rewritten (narrow : record.retiredPage < 2 ^ 48) :
    eepromRecordToPa adapt (rewritten adapt record) = firstPage adapt record := by
  rw [eepromRecordToPa, if_neg (not_not.mpr (getNpsFromPa_rewritten adapt record)),
    untag_rewritten narrow]

theorem mem_pages_rewritten (narrow : record.retiredPage < 2 ^ 48) (page : Nat) :
    page ∈ eepromRecordToPages adapt (rewritten adapt record) ↔
      page ∈ eepromRecordToPages adapt record := by
  rw [mem_eepromRecordToPages, mem_eepromRecordToPages, memAddr_rewritten narrow]
  exact rowPage_of_mem (rowPage_firstPage adapt record) page

theorem rewritten_lt (narrow : record.retiredPage < 2 ^ 48) :
    (rewritten adapt record).retiredPage < 2 ^ 48 :=
  setNpsToPa_lt_of_lt (firstPage_lt narrow) adapt.nps_lt

theorem checkInvalidBp_rewritten (narrow : record.retiredPage < 2 ^ 48) (dated : record.ts ≠ 0) :
    (checkInvalidBp adapt (rewritten adapt record)).isSome = true ↔
      InFrameBuffer adapt (firstPage adapt record) := by
  rw [checkInvalidBp_isSome (rewritten_lt narrow), eepromRecordToPa_rewritten narrow]
  exact ⟨fun facts => facts.2, fun inside => ⟨dated, inside⟩⟩

end Rewritten

section Loaded

variable {adapt : Adapter} {read : List EepromTableRecord} {record : EepromTableRecord}

theorem mem_accepted (six : ∀ record ∈ read, record.retiredPage < 2 ^ 48)
    (listed : record ∈ accepted adapt read) : ∃ origin ∈ read,
      (checkInvalidBp adapt origin).isSome = true ∧ translate adapt origin = record := by
  obtain ⟨origin, inside, checks⟩ := List.mem_filterMap.mp listed
  have facts := (checkInvalidBp_eq_some (six origin inside)).mp checks
  refine ⟨origin, inside, ?_, facts.2.2⟩
  rw [checks]
  rfl

theorem mem_runs {list : List EepromTableRecord} : ∀ {last : Nat},
    record ∈ runs last list → record ∈ list := by
  induction list with
  | nil => exact fun inside => inside
  | cons head rest ih =>
    intro last inside
    unfold runs at inside
    split at inside
    · exact List.mem_cons_of_mem _ (ih inside)
    · rcases List.mem_cons.mp inside with rfl | later
      · exact List.mem_cons_self
      · exact List.mem_cons_of_mem _ (ih later)

theorem exists_mem_runs {list : List EepromTableRecord} : ∀ last : Nat, record ∈ list →
    setNpsToPa last 0 = setNpsToPa record.retiredPage 0 ∨
      ∃ change ∈ runs last list,
        setNpsToPa change.retiredPage 0 = setNpsToPa record.retiredPage 0 := by
  induction list with
  | nil => exact fun _ inside => absurd inside List.not_mem_nil
  | cons head rest ih =>
    intro last inside
    unfold runs
    by_cases same : setNpsToPa last 0 = setNpsToPa head.retiredPage 0
    · rw [if_pos same]
      rcases List.mem_cons.mp inside with rfl | later
      · exact .inl same
      · exact ih last later
    · rw [if_neg same]
      right
      rcases List.mem_cons.mp inside with rfl | later
      · exact ⟨_, List.mem_cons_self, rfl⟩
      · rcases ih head.retiredPage later with here | ⟨change, listed, page⟩
        · exact ⟨head, List.mem_cons_self, here⟩
        · exact ⟨change, List.mem_cons_of_mem _ listed, page⟩

theorem mem_accepted_of_loaded (listed : record ∈ loaded adapt read) :
    record ∈ accepted adapt read :=
  mem_runs (List.mem_of_mem_take listed)

theorem loaded_dated (six : ∀ record ∈ read, record.retiredPage < 2 ^ 48)
    (listed : record ∈ loaded adapt read) : record.retiredPage < 2 ^ 48 ∧ record.ts ≠ 0 := by
  obtain ⟨origin, inside, checks, rfl⟩ := mem_accepted six (mem_accepted_of_loaded listed)
  have narrow := six origin inside
  exact ⟨translate_lt narrow, ((checkInvalidBp_isSome narrow).mp checks).1⟩

theorem expanded_table (six : ∀ record ∈ read, record.retiredPage < 2 ^ 48) (page : Nat) :
    Expanded adapt ((loaded adapt read).map (rewritten adapt)) page ↔
      ∃ change ∈ loaded adapt read, InFrameBuffer adapt (firstPage adapt change) ∧
        page ∈ eepromRecordToPages adapt change := by
  constructor
  · rintro ⟨_, listed, checks, inside⟩
    obtain ⟨change, here, rfl⟩ := List.mem_map.mp listed
    obtain ⟨narrow, dated⟩ := loaded_dated six here
    exact ⟨change, here, (checkInvalidBp_rewritten narrow dated).mp checks,
      (mem_pages_rewritten narrow page).mp inside⟩
  · rintro ⟨change, here, start, inside⟩
    obtain ⟨narrow, dated⟩ := loaded_dated six here
    exact ⟨_, List.mem_map_of_mem here, (checkInvalidBp_rewritten narrow dated).mpr start,
      (mem_pages_rewritten narrow page).mpr inside⟩

theorem mem_loaded_bps (page : Nat) :
    (∃ record ∈ (loaded adapt read).flatMap (rowRecords adapt), record.retiredPage = page) ↔
      ∃ change ∈ loaded adapt read, page ∈ eepromRecordToPages adapt change := by
  constructor
  · rintro ⟨record, listed, rfl⟩
    obtain ⟨change, here, row⟩ := List.mem_flatMap.mp listed
    obtain ⟨page, inside, rfl⟩ := List.mem_map.mp row
    exact ⟨change, here, inside⟩
  · rintro ⟨change, here, inside⟩
    exact ⟨_, List.mem_flatMap.mpr ⟨change, here, List.mem_map_of_mem inside⟩, rfl⟩

end Loaded

section Fits

variable {adapt : Adapter} {read : List EepromTableRecord} {record : EepromTableRecord}

/-- The rows of the first changes are those of the records, although they are looked up again after
the page of the record was replaced. -/
def Fits (adapt : Adapter) (read : List EepromTableRecord) : Prop :=
  (∀ record ∈ read, (checkInvalidBp adapt record).isSome = true →
    ∃ change ∈ loaded adapt read, InFrameBuffer adapt (firstPage adapt change) ∧
      firstPage adapt change = firstPage adapt record) ∧
  ∀ change ∈ loaded adapt read, InFrameBuffer adapt (firstPage adapt change) →
    ∃ record ∈ read, (checkInvalidBp adapt record).isSome = true ∧
      firstPage adapt record = firstPage adapt change

theorem Keeps.fits (memory : ∀ n, adapt.grows n = true)
    (six : ∀ record ∈ read, record.retiredPage < 2 ^ 48) (keeps : Keeps adapt read) :
    Fits adapt read := by
  have pages := (keeps ⟨true, true, []⟩).1 rfl rfl
  rw [loadBadPages_table memory read rfl rfl] at pages
  constructor
  · intro record listed checks
    have inside := (pages (firstPage adapt record)).mpr
      ⟨record, listed, checks, firstPage_mem adapt record⟩
    obtain ⟨change, here, start, row⟩ := (expanded_table six _).mp inside
    exact ⟨change, here, start, firstPage_of_mem row (firstPage_mem adapt record)⟩
  · intro change here start
    have inside := (pages (firstPage adapt change)).mp
      ((expanded_table six _).mpr ⟨change, here, start, firstPage_mem adapt change⟩)
    obtain ⟨record, listed, checks, row⟩ := inside
    exact ⟨record, listed, checks, firstPage_of_mem row (firstPage_mem adapt change)⟩

theorem Fits.keeps (memory : ∀ n, adapt.grows n = true)
    (six : ∀ record ∈ read, record.retiredPage < 2 ^ 48) (fits : Fits adapt read) :
    Keeps adapt read := by
  intro outcome
  constructor
  · intro resets writes page
    rw [loadBadPages_table memory read resets writes, expanded_table six]
    constructor
    · rintro ⟨change, here, start, inside⟩
      obtain ⟨record, listed, checks, row⟩ := fits.2 change here start
      exact ⟨record, listed, checks, (mem_pages_of_firstPage row page).mpr inside⟩
    · rintro ⟨record, listed, checks, inside⟩
      obtain ⟨change, here, start, row⟩ := fits.1 record listed checks
      exact ⟨change, here, start, (mem_pages_of_firstPage row page).mpr inside⟩
  · rintro page ⟨record, listed, checks, inside⟩
    left
    obtain ⟨change, here, -, row⟩ := fits.1 record listed checks
    rw [loadBadPages_bps memory, mem_loaded_bps]
    exact ⟨change, here, (mem_pages_of_firstPage row page).mpr inside⟩

end Fits

section Nps1

variable {adapt : Adapter} {read : List EepromTableRecord} {record : EepromTableRecord}

theorem checkLegacyRecord_iff : checkLegacyRecord adapt record = true ↔
    RowPage (recordPa adapt record 1 false) (libgvFlipMask 1 adapt.vramType)
      record.retiredPage := by
  have bit (pa j : Nat) : (clearNpsPaMaskBits adapt.vramType pa 1 true / 2 ^ 12).testBit j =
      (pa.testBit (12 + j) && !(libgvFlipMask 1 adapt.vramType).testBit (12 + j)) := by
    have cleared := testBit_clearBits (getNpsPaMaskBits adapt.vramType 1) pa (12 + j)
    rw [testBit_pfn, libgvFlipMask, testBit_setBits, Nat.zero_testBit, Bool.false_or,
      ← decide_not, ← cleared]
    simp [clearNpsPaMaskBits]
  rw [checkLegacyRecord, decide_eq_true_iff, rowPage_iff]
  constructor
  · intro same j outside
    have here := congrArg (Nat.testBit · j) same
    simp only [bit, outside, Bool.not_false, Bool.and_true] at here
    rw [here, ← testBit_pfn, Nat.mul_div_cancel _ (Nat.two_pow_pos 12)]
  · intro same
    apply Nat.eq_of_testBit_eq
    intro j
    rw [bit, bit]
    cases inside : (libgvFlipMask 1 adapt.vramType).testBit (12 + j) with
    | true => simp
    | false =>
      rw [← same j inside, ← testBit_pfn (record.retiredPage * 2 ^ 12),
        Nat.mul_div_cancel _ (Nat.two_pow_pos 12)]

variable (single : adapt.nps = 1)

include single

theorem firstPage_translate (narrow : record.retiredPage < 2 ^ 48) :
    firstPage adapt (translate adapt record) = firstPage adapt record := by
  have mask : libgvFlipMask 1 adapt.vramType = rowMask adapt := by
    rw [rowMask, single]
  have page := untag_translate adapt narrow
  have base := rowPage_eepromRecordToPa adapt record
  have tag := getNpsFromPa_translate adapt record
  -- the page of a legacy record has no mode
  have legacy : ∀ record' : EepromTableRecord, checkLegacyRecord adapt record' = true →
      record'.retiredPage < 2 ^ 40 ∧
        RowPage (recordPa adapt record' 1 false) (rowMask adapt) record'.retiredPage := by
    intro record' checks
    rw [checkLegacyRecord_iff, mask] at checks
    exact ⟨rowPage_lt (recordPa_lt ..) checks, checks⟩
  apply firstPage_congr
  intro page'
  rw [mem_eepromRecordToPages, mem_eepromRecordToPages]
  by_cases current : getNpsFromPa record.retiredPage = adapt.nps
  · have named : memAddr adapt (translate adapt record) =
        eepromRecordToPa adapt record * 2 ^ 12 := by
      rw [memAddr, if_neg (not_not.mpr (tag.trans current)), page]
    rw [named, rowPage_of_mem base]
  · have before : memAddr adapt record =
        recordPa adapt record 1 (!checkLegacyRecord adapt record) := by
      rw [memAddr, if_pos current, single]
    have after : memAddr adapt (translate adapt record) =
        recordPa adapt record 1 (!checkLegacyRecord adapt (translate adapt record)) := by
      rw [memAddr, if_pos (tag ▸ current), single]
      rfl
    cases was : checkLegacyRecord adapt record with
    | true =>
      have untagged : getNpsFromPa record.retiredPage = 0 := by
        rw [getNpsFromPa_eq, Nat.div_eq_of_lt (legacy record was).1, Nat.zero_mod]
      have plain : (translate adapt record).retiredPage = eepromRecordToPa adapt record := by
        rw [translate, untagged, setNpsToPa_of_lt (eepromRecordToPa_lt adapt narrow)]
      have still : checkLegacyRecord adapt (translate adapt record) = true := by
        rw [checkLegacyRecord_iff, mask, plain]
        rwa [before, was] at base
      rw [after, before, was, still]
    | false =>
      cases becomes : checkLegacyRecord adapt (translate adapt record) with
      | false => rw [after, before, was, becomes]
      | true =>
        obtain ⟨small, inside⟩ := legacy _ becomes
        have plain : (translate adapt record).retiredPage = eepromRecordToPa adapt record := by
          rw [← page, setNpsToPa_of_lt small]
        rw [plain] at inside
        rw [after, becomes, ← rowPage_of_mem base]
        exact (rowPage_of_mem inside page').symm

theorem fits_iff (six : ∀ record ∈ read, record.retiredPage < 2 ^ 48) : Fits adapt read ↔
    ∀ change ∈ runs invMemPfn (accepted adapt read), ∃ change' ∈ loaded adapt read,
      firstPage adapt change' = firstPage adapt change := by
  have start {record : EepromTableRecord} (listed : record ∈ read)
      (checks : (checkInvalidBp adapt record).isSome = true) :
      InFrameBuffer adapt (firstPage adapt record) :=
    ((checkInvalidBp_isSome (six record listed)).mp checks).2.mono
      (firstPage_le (rowPage_eepromRecordToPa adapt record))
  constructor
  · rintro ⟨kept, -⟩ change listed
    obtain ⟨record, inside, checks, rfl⟩ := mem_accepted six (mem_runs listed)
    obtain ⟨change', here, -, row⟩ := kept record inside checks
    exact ⟨change', here, row.trans (firstPage_translate single (six record inside)).symm⟩
  · intro kept
    constructor
    · intro record inside checks
      have narrow := six record inside
      obtain ⟨translated, gives⟩ := Option.isSome_iff_exists.mp checks
      obtain ⟨dated, inFb, rfl⟩ := (checkInvalidBp_eq_some narrow).mp gives
      have listed : translate adapt record ∈ accepted adapt read :=
        List.mem_filterMap.mpr ⟨record, inside, gives⟩
      have base := untag_translate adapt narrow
      have change : ∃ change ∈ runs invMemPfn (accepted adapt read),
          firstPage adapt change = firstPage adapt record := by
        rcases exists_mem_runs invMemPfn listed with initial | ⟨change, here, same⟩
        · have small := eepromRecordToPa_lt adapt narrow
          rw [base] at initial
          rw [← initial] at small
          exact absurd small (by decide)
        · obtain ⟨origin, inside', -, rfl⟩ := mem_accepted six (mem_runs here)
          have narrow' := six origin inside'
          refine ⟨_, here, ?_⟩
          rw [untag_translate adapt narrow', base] at same
          rw [firstPage_translate single narrow']
          have row := eepromRecordToPa_mem adapt origin
          rw [same] at row
          exact firstPage_of_mem row (eepromRecordToPa_mem adapt record)
      obtain ⟨change, here, same⟩ := change
      obtain ⟨change', first, same'⟩ := kept change here
      refine ⟨change', first, ?_, same'.trans same⟩
      rw [same', same]
      exact start inside checks
    · intro change here _
      obtain ⟨record, inside, checks, rfl⟩ := mem_accepted six (mem_accepted_of_loaded here)
      exact ⟨record, inside, checks, (firstPage_translate single (six record inside)).symm⟩

end Nps1

instance (adapt : Adapter) (page : Nat) : Decidable (InFrameBuffer adapt page) := by
  unfold InFrameBuffer
  infer_instance

instance (adapt : Adapter) (read : List EepromTableRecord) : Decidable (Fits adapt read) := by
  unfold Fits
  infer_instance

instance (adapt : Adapter) (records : List EepromTableRecord) (page : Nat) :
    Decidable (Expanded adapt records page) := by
  unfold Expanded
  infer_instance

/-- The upgrade of a table keeps its pages if and only if the rows that are loaded are those of its
records, and in one partition if and only if no row is first met after the room is used up. -/
theorem loadBadPages_keeps_iff {adapt : Adapter} {read : List EepromTableRecord}
    (memory : ∀ n, adapt.grows n = true) (six : ∀ record ∈ read, record.retiredPage < 2 ^ 48) :
    (Keeps adapt read ↔ Fits adapt read) ∧
      (adapt.nps = 1 → (Keeps adapt read ↔
        ∀ change ∈ runs invMemPfn (accepted adapt read), ∃ change' ∈ loaded adapt read,
          firstPage adapt change' = firstPage adapt change)) := by
  have whole : Keeps adapt read ↔ Fits adapt read :=
    ⟨Keeps.fits memory six, Fits.keeps memory six⟩
  exact ⟨whole, fun single => whole.trans (fits_iff single six)⟩

def device (nps : Fin 9) : Adapter where
  vramType := .hbm3
  nps := nps
  nps_lt := by omega
  socketId := 0
  totalFbInMb := 0x30000
  maxRecordNum := 10665
  grows := fun _ => true

/-- A record of the translated address `0x400`, with its page in one partition. -/
def legacyRecord : EepromTableRecord where
  retiredPage := 1024
  ts := 1
  address := 0x400
  memChannel := 5
  mcumcId := 0

theorem device_keeps_legacyRecord : Keeps (device 1) [legacyRecord, legacyRecord] :=
  (loadBadPages_keeps_iff (fun _ => rfl) (by decide)).1.mpr (by decide +kernel)

/-- In four partitions the page that was translated is not taken for one of a legacy record, and
the bank is hashed once more: another row is loaded and written back. -/
theorem device_loses_legacyRecord : ¬ Keeps (device 4) [legacyRecord] := by
  intro keeps
  have page := (keeps ⟨true, true, []⟩).1 rfl rfl 256
  revert page
  decide +kernel

end MxGpu.UmcV12.Upgrade
