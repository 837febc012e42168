import MxGpu.RasUmc

/- The bad pages that the driver keeps in memory (`rascore/ras_umc.c`): the records in
`rom_data`, the tree of their rows, and the pages of the rows in `ram_data`. -/
namespace MxGpu.Ras

/-- `struct eeprom_store_record` without the channels: the entries, how many the buffer can
hold, and `space_left`. -/
structure StoreRecord where
  bps : List UmcRecord
  allocated : Nat
  spaceLeft : Int
  deriving DecidableEq

namespace StoreRecord

variable (data : StoreRecord)

def empty : StoreRecord := ⟨[], 0, 0⟩

/-- `ras_umc_realloc_err_data_space`, with memory. -/
def reallocErrDataSpace (pages : Nat) : StoreRecord :=
  let oldSpace := (data.bps.length + data.spaceLeft).toNat
  let alignSpace := (oldSpace + pages + 511) / 512 * 512
  { data with
    allocated := alignSpace
    spaceLeft := data.spaceLeft + (alignSpace - oldSpace) }

def append (entries : List UmcRecord) : StoreRecord :=
  { data with
    bps := data.bps ++ entries
    spaceLeft := data.spaceLeft - entries.length }

/-- How both updates write: more space is taken only when none at all is left. -/
def write (memory : Bool) (entries : List UmcRecord) : Option StoreRecord :=
  if data.spaceLeft = 0 then
    if memory then some ((data.reallocErrDataSpace 256).append entries) else none
  else some (data.append entries)

/-- The buffer holds the entries and the space that is left, and nothing is behind its end. -/
structure Holds : Prop where
  total : (data.bps.length : Int) + data.spaceLeft = data.allocated
  within : data.bps.length ≤ data.allocated

def Room (n : Nat) : Prop := data.spaceLeft = 0 ∨ (n : Int) ≤ data.spaceLeft

variable {data}

theorem empty_holds : empty.Holds := ⟨rfl, Nat.le_refl _⟩

theorem Holds.realloc (holds : data.Holds) (full : data.spaceLeft = 0) :
    (data.reallocErrDataSpace 256).Holds ∧ 256 ≤ (data.reallocErrDataSpace 256).spaceLeft := by
  have total := holds.total
  rw [full, Int.add_zero] at total
  have old : ((data.bps.length : Int) + data.spaceLeft).toNat = data.bps.length := by
    rw [full, Int.add_zero, Int.toNat_natCast]
  refine ⟨⟨?_, ?_⟩, ?_⟩
  · simp only [reallocErrDataSpace, full]
    omega
  · simp only [reallocErrDataSpace, old]
    omega
  · simp only [reallocErrDataSpace, full]
    omega

theorem Holds.append (holds : data.Holds) {entries : List UmcRecord} :
    (data.append entries).Holds ↔ (entries.length : Int) ≤ data.spaceLeft := by
  have total := holds.total
  constructor
  · intro after
    have within := after.within
    simp only [StoreRecord.append, List.length_append] at within
    omega
  · intro room
    constructor
    · simp only [StoreRecord.append, List.length_append]
      omega
    · simp only [StoreRecord.append, List.length_append]
      omega

theorem Holds.write (holds : data.Holds) {memory : Bool} {entries : List UmcRecord}
    (short : entries.length ≤ 256) {after : StoreRecord}
    (written : data.write memory entries = some after) :
    after.Holds ↔ data.Room entries.length := by
  unfold StoreRecord.write at written
  unfold Room
  split at written
  · rename_i full
    obtain ⟨space, left⟩ := holds.realloc full
    split at written
    · cases written
      rw [space.append]
      constructor
      · exact fun _ => .inl full
      · intro _
        omega
    · cases written
  · rename_i some_
    cases written
    rw [holds.append]
    exact ⟨.inr, fun room => room.resolve_left some_⟩

theorem write_bps {memory : Bool} {entries : List UmcRecord} {after : StoreRecord}
    (written : data.write memory entries = some after) : after.bps = data.bps ++ entries := by
  unfold write at written
  split at written
  · split at written
    · cases written
      rfl
    · cases written
  · cases written
    rfl

theorem write_eq_none {memory : Bool} {entries : List UmcRecord} :
    data.write memory entries = none ↔ data.spaceLeft = 0 ∧ memory = false := by
  unfold write
  split
  · rename_i full
    cases memory <;> simp [full]
  · rename_i some_
    simp [some_]

end StoreRecord

inductive UmcIpVersion
  | v12_0
  | v15_0

def UmcIpVersion.maxPagesPerRow : UmcIpVersion → Nat
  | .v12_0 => 16
  | .v15_0 => 128

/-- The loop of `ras_umc_expand_row_pages`, as long as there is room for pages. -/
def flippedPages (rowPa flipMask : Nat) : Nat → Nat → List Nat
  | 0, _ => []
  | _ + 1, 0 => []
  | room + 1, subset + 1 =>
    (rowPa ^^^ (subset + 1)) / 2 ^ 12 :: flippedPages rowPa flipMask room (subset &&& flipMask)

/-- `ras_umc_expand_row_pages` of a record that has pages to expand. -/
def expandRowPages (record : UmcRecord) (nrPagePfns : Nat) : List Nat :=
  let retiredAddr := record.curNpsRetiredRowPfn * 2 ^ 12 % 2 ^ 64
  let flipMask := record.curNpsPaFlipMask
  -- the bits of the mask are cleared
  let rowPa := retiredAddr ^^^ (retiredAddr &&& flipMask)
  rowPa / 2 ^ 12 :: flippedPages rowPa flipMask (nrPagePfns - 1) flipMask

def rowPages (ip : UmcIpVersion) (record : UmcRecord) : List Nat :=
  expandRowPages record ip.maxPagesPerRow

theorem flippedPages_length (rowPa flipMask room subset : Nat) :
    (flippedPages rowPa flipMask room subset).length ≤ room := by
  induction room generalizing subset with
  | zero => exact Nat.le_refl _
  | succ room ih =>
    cases subset with
    | zero => exact Nat.zero_le _
    | succ subset => exact Nat.succ_le_succ (ih _)

theorem rowPages_length (ip : UmcIpVersion) (record : UmcRecord) :
    0 < (rowPages ip record).length ∧ (rowPages ip record).length ≤ ip.maxPagesPerRow := by
  have few := flippedPages_length
    (record.curNpsRetiredRowPfn * 2 ^ 12 % 2 ^ 64 ^^^
      (record.curNpsRetiredRowPfn * 2 ^ 12 % 2 ^ 64 &&& record.curNpsPaFlipMask))
    record.curNpsPaFlipMask (ip.maxPagesPerRow - 1) record.curNpsPaFlipMask
  have positive : 0 < ip.maxPagesPerRow := by cases ip <;> decide
  simp only [rowPages, expandRowPages, List.length_cons]
  omega

theorem maxPagesPerRow_le (ip : UmcIpVersion) : ip.maxPagesPerRow ≤ 256 := by
  cases ip <;> decide

/-- The store of a driver, and the pages that it has asked to reserve since it was empty. -/
structure PageStore where
  romData : StoreRecord
  ramData : StoreRecord
  logged : List Nat
  reserved : List Nat
  deriving DecidableEq

namespace PageStore

variable (ip : UmcIpVersion)

def updateEepromRomData (memory : Bool) (bps : UmcRecord) (data : StoreRecord) :
    Option StoreRecord :=
  data.write memory [bps]

def updateEepromRamData (memory : Bool) (bps : UmcRecord) (pagePfns : List Nat)
    (data : StoreRecord) : Option StoreRecord :=
  if pagePfns = [] ∨ ip.maxPagesPerRow < pagePfns.length then none
  else data.write memory (pagePfns.map fun page => { bps with curNpsRetiredRowPfn := page })

/-- What `ras_umc_add_bad_pages` does with a record whose pages it knows. -/
def addRecord (env : UmcEnv) (s : PageStore) (row : UmcRecord) : Bool × PageStore :=
  match updateEepromRomData (env.rom row) row s.romData with
  | none => (false, s)
  | some romData =>
    -- `ras_umc_log_record`; the tree takes no second record of a row
    if !env.log row || row.curNpsRetiredRowPfn ∈ s.logged then (false, { s with romData })
    else
      let logged := row.curNpsRetiredRowPfn :: s.logged
      let reserved := s.reserved ++ rowPages ip row
      match updateEepromRamData ip (env.ram row) row (rowPages ip row) s.ramData with
      | none => (false, { s with romData, logged, reserved })
      | some ramData => (true, { romData, ramData, logged, reserved })

/-- The loop of `ras_umc_add_bad_pages`. -/
def addRecords (env : UmcEnv) : PageStore → List UmcRecord → Bool × PageStore
  | s, [] => (true, s)
  | s, record :: rest =>
    match checkRetiredRecord env ⟨s.romData.bps, s.logged⟩ record with
    | none => addRecords env s rest
    | some checked =>
      match convertRecordToRowPages env checked with
      | none => (false, s)
      | some row =>
        if (addRecord ip env s row).1 then addRecords env (addRecord ip env s row).2 rest
        else addRecord ip env s row

/-- `ras_umc_add_bad_pages` -/
def addPages (env : UmcEnv) (s : PageStore) (bps : List UmcRecord) : Bool × PageStore :=
  if bps = [] ∨ env.rows = false then (false, s) else addRecords ip env s bps

/-- The loop of `ras_umc_dump_fw_records`; `getRecord` is what is read at a place, and what
adding it meets. -/
def dumpRecords (getRecord : Nat → Option (UmcEnv × UmcRecord)) :
    List Nat → PageStore → PageStore
  | [], s => s
  | i :: rest, s =>
    match getRecord i with
    | none => s
    | some (env, record) => dumpRecords getRecord rest (addPages ip env s [record]).2

def dumpFwRecords (eepromCount : Nat) (getRecord : Nat → Option (UmcEnv × UmcRecord))
    (s : PageStore) : PageStore :=
  dumpRecords ip getRecord
    (List.range' s.romData.bps.length (eepromCount - s.romData.bps.length)) s

def cleanBadpageData (s : PageStore) : PageStore :=
  { s with romData := .empty, ramData := .empty, reserved := [] }

inductive Action
  | add (env : UmcEnv) (bps : List UmcRecord)
  /-- nothing is loaded when the records cannot be read or kept -/
  | load (env : UmcEnv) (records : Option (List UmcRecord))
  | save
  | dumpFw (eepromCount : Nat) (getRecord : Nat → Option (UmcEnv × UmcRecord))
  | clean

/-- One call. `ras_umc_save_bad_pages` only reads the store. -/
def next (s : PageStore) : Action → PageStore
  | .add env bps => (addPages ip env s bps).2
  | .load env records =>
    match records with
    | none => s
    | some bps => (addPages ip env s bps).2
  | .save => s
  | .dumpFw eepromCount getRecord => dumpFwRecords ip eepromCount getRecord s
  | .clean => cleanBadpageData s

def Start (s : PageStore) : Prop := s = ⟨.empty, .empty, [], []⟩

/-- All pages of a record's row are in `ram_data`. -/
def Expanded (s : PageStore) (record : UmcRecord) : Prop :=
  ∀ page ∈ rowPages ip record, page ∈ rows s.ramData.bps

/-- A row is in the tree, its record in `rom_data` and its pages in `ram_data`, and they were
reserved. -/
def Recorded (s : PageStore) (row : Nat) : Prop :=
  row ∈ s.logged ∧ ∃ record ∈ s.romData.bps, record.curNpsRetiredRowPfn = row ∧
    Expanded ip s record ∧ ∀ page ∈ rowPages ip record, page ∈ s.reserved

/-- What entering a record needs: room for its pages, memory for them once it is in the tree,
and that no row is complete in `rom_data` and `ram_data` without being in the tree. -/
def Enters (env : UmcEnv) (s : PageStore) (row : UmcRecord) : Prop :=
  updateEepromRomData (env.rom row) row s.romData ≠ none →
    if env.log row then
      s.ramData.Room (rowPages ip row).length ∧
        (s.ramData.spaceLeft ≠ 0 ∨ env.ram row = true ∨ Expanded ip s row) ∧
        ∀ other ∈ s.romData.bps, other.curNpsRetiredRowPfn ∉ s.logged →
          other.curNpsRetiredRowPfn ≠ row.curNpsRetiredRowPfn →
          ¬ ∀ page ∈ rowPages ip other, page ∈ rows s.ramData.bps ∨ page ∈ rowPages ip row
    else ¬ Expanded ip s row

def AddMeets (env : UmcEnv) : PageStore → List UmcRecord → Prop
  | _, [] => True
  | s, record :: rest =>
    match checkRetiredRecord env ⟨s.romData.bps, s.logged⟩ record with
    | none => AddMeets env s rest
    | some checked =>
      match convertRecordToRowPages env checked with
      | none => True
      | some row =>
        Enters ip env s row ∧
          ((addRecord ip env s row).1 = true → AddMeets env (addRecord ip env s row).2 rest)

def DumpMeets (getRecord : Nat → Option (UmcEnv × UmcRecord)) : List Nat → PageStore → Prop
  | [], _ => True
  | i :: rest, s =>
    match getRecord i with
    | none => True
    | some (env, record) =>
      AddMeets ip env s [record] ∧
        DumpMeets getRecord rest (addPages ip env s [record]).2

def Meets (s : PageStore) : Action → Prop
  | .add env bps => AddMeets ip env s bps
  | .load env records => ∀ bps, records = some bps → AddMeets ip env s bps
  | .save => True
  | .dumpFw eepromCount getRecord =>
    DumpMeets ip getRecord
      (List.range' s.romData.bps.length (eepromCount - s.romData.bps.length)) s
  | .clean => s.logged = []

/-- The buffers hold what is counted, the three views agree, and a page that can be expanded
and for which there is memory can be added, whatever happened before. -/
structure Sound (s : PageStore) : Prop where
  rom : s.romData.Holds
  ram : s.ramData.Holds
  agree : ∀ row, row ∈ s.logged ↔
    ∃ record ∈ s.romData.bps, record.curNpsRetiredRowPfn = row ∧ Expanded ip s record
  again : ∀ env record row, env.rows = true →
    (∀ other, env.rom other ∧ env.log other ∧ env.ram other) →
    recordToNpsRecord env record env.nps = some row → HasRow row →
    AddMeets ip env s [record] → Recorded ip (addPages ip env s [record]).2 row.curNpsRetiredRowPfn

section Adding

variable {ip : UmcIpVersion} {env : UmcEnv} {s : PageStore}

structure Keeps (ip : UmcIpVersion) (s : PageStore) : Prop where
  rom : s.romData.Holds
  ram : s.ramData.Holds
  agree : ∀ row, row ∈ s.logged ↔
    ∃ record ∈ s.romData.bps, record.curNpsRetiredRowPfn = row ∧ Expanded ip s record
  reserved : ∀ page ∈ rows s.ramData.bps, page ∈ s.reserved

theorem Keeps.recorded (keeps : Keeps ip s) {row : Nat} (logged : row ∈ s.logged) :
    Recorded ip s row := by
  obtain ⟨record, held, same, expanded⟩ := (keeps.agree row).mp logged
  exact ⟨logged, record, held, same, expanded,
    fun page inside => keeps.reserved page (expanded page inside)⟩

theorem rows_pages (row : UmcRecord) (pages : List Nat) :
    rows (pages.map fun page => { row with curNpsRetiredRowPfn := page }) = pages := by
  unfold rows
  rw [List.map_map]
  exact List.map_id _

theorem updateEepromRomData_some {memory : Bool} {row : UmcRecord} {data romData : StoreRecord}
    (holds : data.Holds) (updated : updateEepromRomData memory row data = some romData) :
    romData.Holds ∧ romData.bps = data.bps ++ [row] := by
  have short : [row].length ≤ 256 := by
    show 1 ≤ 256
    decide
  refine ⟨(holds.write short updated).mpr ?_, StoreRecord.write_bps updated⟩
  have total := holds.total
  have within := holds.within
  unfold StoreRecord.Room
  simp only [List.length_singleton]
  omega

theorem updateEepromRamData_eq {memory : Bool} {row : UmcRecord} {data : StoreRecord} :
    updateEepromRamData ip memory row (rowPages ip row) data =
      data.write memory
        ((rowPages ip row).map fun page => { row with curNpsRetiredRowPfn := page }) := by
  obtain ⟨positive, short⟩ := rowPages_length ip row
  unfold updateEepromRamData
  rw [if_neg]
  rintro (none | long)
  · rw [none] at positive
    exact absurd positive (Nat.lt_irrefl _)
  · omega

theorem updateEepromRamData_some {memory : Bool} {row : UmcRecord} {data ramData : StoreRecord}
    (holds : data.Holds) (room : data.Room (rowPages ip row).length)
    (updated : updateEepromRamData ip memory row (rowPages ip row) data = some ramData) :
    ramData.Holds ∧ rows ramData.bps = rows data.bps ++ rowPages ip row := by
  have short := (rowPages_length ip row).2.trans (maxPagesPerRow_le ip)
  rw [updateEepromRamData_eq] at updated
  constructor
  · rw [holds.write (by rw [List.length_map]; exact short) updated, List.length_map]
    exact room
  · have after := StoreRecord.write_bps updated
    rw [after, rows, List.map_append]
    exact congrArg (rows data.bps ++ ·) (rows_pages row _)

theorem Keeps.unlogged (keeps : Keeps ip s) {row : UmcRecord} {romData : StoreRecord}
    (holds : romData.Holds) (rom : romData.bps = s.romData.bps ++ [row])
    (apart : ¬ Expanded ip s row) : Keeps ip { s with romData } := by
  refine ⟨holds, keeps.ram, ?_, keeps.reserved⟩
  intro key
  rw [show ({ s with romData } : PageStore).logged = s.logged from rfl, keeps.agree]
  constructor
  · rintro ⟨record, held, same, expanded⟩
    exact ⟨record, by rw [rom]; exact List.mem_append_left _ held, same, expanded⟩
  · rintro ⟨record, held, same, expanded⟩
    rw [rom] at held
    rcases List.mem_append.mp held with before | new
    · exact ⟨record, before, same, expanded⟩
    · rw [List.mem_singleton.mp new] at expanded
      exact absurd expanded apart

theorem Keeps.logged (keeps : Keeps ip s) {row : UmcRecord} {romData ramData : StoreRecord}
    (romHolds : romData.Holds) (rom : romData.bps = s.romData.bps ++ [row])
    (ramHolds : ramData.Holds)
    (ram : ∀ page, page ∈ rows ramData.bps ↔
      page ∈ rows s.ramData.bps ∨ page ∈ rowPages ip row)
    (others : ∀ other ∈ s.romData.bps, other.curNpsRetiredRowPfn ∉ s.logged →
      other.curNpsRetiredRowPfn ≠ row.curNpsRetiredRowPfn →
      ¬ ∀ page ∈ rowPages ip other, page ∈ rows s.ramData.bps ∨ page ∈ rowPages ip row) :
    Keeps ip
      { romData, ramData, logged := row.curNpsRetiredRowPfn :: s.logged
        reserved := s.reserved ++ rowPages ip row } := by
  refine ⟨romHolds, ramHolds, ?_, ?_⟩
  · intro key
    rw [List.mem_cons]
    constructor
    · rintro (rfl | before)
      · exact ⟨row, by rw [rom]; exact List.mem_append_right _ List.mem_cons_self, rfl,
          fun page inside => (ram page).mpr (.inr inside)⟩
      · obtain ⟨record, held, same, expanded⟩ := (keeps.agree key).mp before
        exact ⟨record, by rw [rom]; exact List.mem_append_left _ held, same,
          fun page inside => (ram page).mpr (.inl (expanded page inside))⟩
    · rintro ⟨record, held, rfl, expanded⟩
      by_contra absent
      rw [not_or] at absent
      rw [rom] at held
      rcases List.mem_append.mp held with before | new
      · exact others record before absent.2 absent.1
          fun page inside => (ram page).mp (expanded page inside)
      · rw [List.mem_singleton.mp new] at absent
        exact absent.1 rfl
  · intro page inside
    apply List.mem_append.mpr
    exact ((ram page).mp inside).imp_left (keeps.reserved page)

theorem Keeps.addRecord (keeps : Keeps ip s) {row : UmcRecord}
    (fresh : row.curNpsRetiredRowPfn ∉ s.logged) (enters : Enters ip env s row) :
    Keeps ip (PageStore.addRecord ip env s row).2 ∧
      ((PageStore.addRecord ip env s row).1 = true →
        row.curNpsRetiredRowPfn ∈ (PageStore.addRecord ip env s row).2.logged) := by
  unfold Enters at enters
  unfold PageStore.addRecord
  cases inRom : updateEepromRomData (env.rom row) row s.romData with
  | none => exact ⟨keeps, nofun⟩
  | some romData =>
    obtain ⟨romHolds, rom⟩ := updateEepromRomData_some keeps.rom inRom
    have needs := enters (by rw [inRom]; nofun)
    simp only [fresh, decide_false, Bool.or_false]
    cases log : env.log row with
    | false =>
      rw [log, if_neg Bool.false_ne_true] at needs
      exact ⟨keeps.unlogged romHolds rom needs, nofun⟩
    | true =>
      rw [log, if_pos rfl] at needs
      obtain ⟨room, memory, others⟩ := needs
      simp only [Bool.not_true, Bool.false_eq_true, if_false]
      cases inRam : updateEepromRamData ip (env.ram row) row (rowPages ip row) s.ramData with
      | none =>
        refine ⟨keeps.logged romHolds rom keeps.ram ?_ others, nofun⟩
        rw [updateEepromRamData_eq, StoreRecord.write_eq_none] at inRam
        have expanded : Expanded ip s row := by
          rcases memory with left | memory | expanded
          · exact absurd inRam.1 left
          · rw [memory] at inRam
            exact absurd inRam.2 nofun
          · exact expanded
        intro page
        exact ⟨.inl, fun held => held.elim id (expanded page)⟩
      | some ramData =>
        obtain ⟨ramHolds, ram⟩ := updateEepromRamData_some keeps.ram room inRam
        refine ⟨keeps.logged romHolds rom ramHolds ?_ others, fun _ => List.mem_cons_self⟩
        intro page
        rw [ram, List.mem_append]

theorem Keeps.addRecords (bps : List UmcRecord) (keeps : Keeps ip s)
    (meets : AddMeets ip env s bps) : Keeps ip (PageStore.addRecords ip env s bps).2 := by
  induction bps generalizing s with
  | nil => exact keeps
  | cons record rest ih =>
    unfold AddMeets at meets
    unfold PageStore.addRecords
    cases check : checkRetiredRecord env ⟨s.romData.bps, s.logged⟩ record with
    | none =>
      rw [check] at meets
      exact ih keeps meets
    | some checked =>
      cases convert : convertRecordToRowPages env checked with
      | none =>
        simp only [convert]
        exact keeps
      | some row =>
        simp only [check, convert] at meets ⊢
        have fresh := (convertRecordToRowPages_some check convert).2
        have after := (keeps.addRecord fresh meets.1).1
        split
        · rename_i succeeded
          exact ih after (meets.2 succeeded)
        · exact after

theorem Keeps.addPages (bps : List UmcRecord) (keeps : Keeps ip s)
    (meets : AddMeets ip env s bps) : Keeps ip (PageStore.addPages ip env s bps).2 := by
  unfold PageStore.addPages
  split
  · exact keeps
  · exact keeps.addRecords bps meets

theorem Keeps.dumpRecords {getRecord : Nat → Option (UmcEnv × UmcRecord)} (places : List Nat)
    (keeps : Keeps ip s) (meets : DumpMeets ip getRecord places s) :
    Keeps ip (PageStore.dumpRecords ip getRecord places s) := by
  induction places generalizing s with
  | nil => exact keeps
  | cons i rest ih =>
    unfold DumpMeets at meets
    unfold PageStore.dumpRecords
    cases read : getRecord i with
    | none => exact keeps
    | some found =>
      simp only [read] at meets ⊢
      exact ih (keeps.addPages _ meets.1) meets.2

theorem Keeps.next (keeps : Keeps ip s) (action : Action) (meets : Meets ip s action) :
    Keeps ip (PageStore.next ip s action) := by
  cases action with
  | add env bps => exact keeps.addPages bps meets
  | load env records =>
    cases records with
    | none => exact keeps
    | some bps => exact keeps.addPages bps (meets bps rfl)
  | save => exact keeps
  | dumpFw eepromCount getRecord => exact keeps.dumpRecords _ meets
  | clean =>
    refine ⟨StoreRecord.empty_holds, StoreRecord.empty_holds, ?_, nofun⟩
    intro row
    show row ∈ s.logged ↔ ∃ record ∈ [], _
    rw [meets]
    simp

theorem convertRecordToRowPages_row {record row : UmcRecord}
    (translated : recordToNpsRecord env record env.nps = some row) (hasRow : HasRow row) :
    convertRecordToRowPages env row = some row := by
  obtain ⟨mode, positive, small, -⟩ := recordToNpsRecord_some translated
  have page : row.curNpsRetiredRowPfn ≠ 0 := by
    intro zero
    apply hasRow.1
    rw [zero, Nat.zero_mul, Nat.zero_mod]
  unfold convertRecordToRowPages
  rw [if_neg (by omega), if_neg (by have mask := hasRow.2; omega), Option.filter_some,
    if_pos (decide_eq_true hasRow)]

theorem addRecord_succeeds {row : UmcRecord}
    (memory : ∀ other, env.rom other ∧ env.log other ∧ env.ram other)
    (fresh : row.curNpsRetiredRowPfn ∉ s.logged) : (PageStore.addRecord ip env s row).1 = true := by
  obtain ⟨rom, log, ram⟩ := memory row
  unfold PageStore.addRecord
  cases inRom : updateEepromRomData (env.rom row) row s.romData with
  | none =>
    rw [updateEepromRomData, StoreRecord.write_eq_none, rom] at inRom
    exact absurd inRom.2 nofun
  | some romData =>
    simp only [fresh, decide_false, log, Bool.not_true, Bool.or_self, Bool.false_eq_true, if_false]
    cases inRam : updateEepromRamData ip (env.ram row) row (rowPages ip row) s.ramData with
    | none =>
      rw [updateEepromRamData_eq, StoreRecord.write_eq_none, ram] at inRam
      exact absurd inRam.2 nofun
    | some ramData => rfl

theorem Keeps.again (keeps : Keeps ip s) {record row : UmcRecord} (memory : env.rows = true)
    (others : ∀ other, env.rom other ∧ env.log other ∧ env.ram other)
    (translated : recordToNpsRecord env record env.nps = some row) (hasRow : HasRow row)
    (meets : AddMeets ip env s [record]) :
    Recorded ip (PageStore.addPages ip env s [record]).2 row.curNpsRetiredRowPfn := by
  have after := keeps.addPages [record] meets
  apply after.recorded
  have adds : PageStore.addPages ip env s [record] = PageStore.addRecords ip env s [record] := by
    unfold PageStore.addPages
    rw [if_neg (by simp [memory])]
  rw [adds]
  unfold PageStore.addRecords
  unfold AddMeets at meets
  by_cases known : row.curNpsRetiredRowPfn ∈ s.logged
  · have check : checkRetiredRecord env ⟨s.romData.bps, s.logged⟩ record = none := by
      unfold checkRetiredRecord
      rw [translated, Option.filter_some, if_neg (by simpa using known)]
    rw [check]
    exact known
  · have check : checkRetiredRecord env ⟨s.romData.bps, s.logged⟩ record = some row := by
      unfold checkRetiredRecord
      rw [translated, Option.filter_some, if_pos (by simpa using known)]
    have succeeds := @addRecord_succeeds ip env s row others known
    simp only [check, convertRecordToRowPages_row translated hasRow] at meets ⊢
    rw [if_pos succeeds]
    exact (keeps.addRecord known meets.1).2 succeeds

end Adding

section Runs

variable (ip : UmcIpVersion)

def Step (s : PageStore) (action : Action) (after : PageStore) : Prop := after = next ip s action

/-- In every run whose calls meet this the buffers hold what is counted, the three views agree,
and bad pages can be added again. -/
theorem pageStore_sound {s : PageStore}
    (run : Transition.Run Start (Step ip) (Meets ip) s) : Sound ip s := by
  have keeps : Keeps ip s := by
    apply run.invariant (Keeps ip)
    · rintro _ rfl
      refine ⟨StoreRecord.empty_holds, StoreRecord.empty_holds, ?_, nofun⟩
      intro row
      show row ∈ [] ↔ ∃ record ∈ [], _
      simp
    · rintro _ action _ keeps meets rfl
      exact keeps.next action meets
  exact ⟨keeps.rom, keeps.ram, keeps.agree,
    fun _ _ _ memory others translated hasRow meets =>
      keeps.again memory others translated hasRow meets⟩

def twoPageEnv : UmcEnv :=
  ⟨1, fun record _ _ => some (record.retiredRowPfn.toNat, 2 ^ 12), true, fun _ => true,
    fun _ => true, fun _ => true⟩

def emptyStore : PageStore := ⟨.empty, .empty, [], []⟩

/-- Pages 6 and 7 are a row, and so are 8 and 9; the second record of the first row is known. -/
theorem pageStore_sound_two : ∃ s : PageStore, rows s.ramData.bps = [6, 7, 8, 9] ∧
    s.logged.length = 2 ∧ Sound .v12_0 s := by
  let records := [7, 9, 7].map fun page => UmcRecord.loaded (pageRecord page)
  have h0 : Transition.Run Start (Step .v12_0) (Meets .v12_0) emptyStore := .start rfl
  have meets : Meets .v12_0 emptyStore (.add twoPageEnv records) := by
    refine ⟨fun _ => ⟨.inl rfl, .inr (.inl rfl), nofun⟩, fun _ => ?_⟩
    refine ⟨fun _ => ⟨by unfold StoreRecord.Room; decide +kernel, .inr (.inl rfl), ?_⟩, fun _ => ?_⟩
    · decide +kernel
    · exact trivial
  have h1 := Transition.Run.next (Action.add twoPageEnv records) h0 meets rfl
  exact ⟨_, by decide +kernel, by decide +kernel, pageStore_sound .v12_0 h1⟩

/-- A clean leaves the row in the tree, so that its record is not in `rom_data` any more. -/
theorem clean_keeps_row : ¬ ∀ s : PageStore,
    Transition.Run Start (Step .v12_0) Transition.always s → Sound .v12_0 s := by
  intro sound
  have h0 : Transition.Run Start (Step .v12_0) Transition.always emptyStore := .start rfl
  have h1 : Transition.Run Start (Step .v12_0) Transition.always _ :=
    .next (Action.add twoPageEnv [UmcRecord.loaded (pageRecord 7)]) h0 trivial rfl
  have h2 : Transition.Run Start (Step .v12_0) Transition.always _ :=
    .next Action.clean h1 trivial rfl
  have logged : 7 ∈ (next .v12_0
      (next .v12_0 emptyStore (.add twoPageEnv [UmcRecord.loaded (pageRecord 7)])) .clean).logged := by
    decide +kernel
  obtain ⟨record, held, -⟩ := ((sound _ h2).agree 7).mp logged
  cases held

end Runs

end PageStore

end MxGpu.Ras
