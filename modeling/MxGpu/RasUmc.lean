import MxGpu.RasInit

/- Bad pages that are found at runtime and saved in the EEPROM (`rascore/ras_umc.c`). -/
namespace MxGpu.Ras

open ByteStore SlotRing List

/-- A record with the fields that are not in the EEPROM: `ipid`, `cur_nps`,
`cur_nps_retired_row_pfn` and `cur_nps_pa_flip_mask`. -/
structure UmcRecord where
  rom : Record
  ipid : Nat
  curNps : Nat
  curNpsRetiredRowPfn : Nat
  curNpsPaFlipMask : Nat
  deriving DecidableEq

/-- What adding pages meets: the memory partition mode, `eeprom_record_to_nps_record` of the IP
version, and whether there is memory for the row pages, and for a record in the rom cache, in the
tree of logged rows and in the ram cache. -/
structure UmcEnv where
  nps : Nat
  toNps : Record → Nat → Nat → Option (Nat × Nat)
  rows : Bool
  rom : UmcRecord → Bool
  log : UmcRecord → Bool
  ram : UmcRecord → Bool

/-- `rom_data` and the keys of the tree of logged rows. -/
structure UmcCache where
  rom : List UmcRecord
  logged : List Nat

def recordToNpsRecord (env : UmcEnv) (record : UmcRecord) (nps : Nat) : Option UmcRecord :=
  if nps = 0 ∨ 9 ≤ nps then none
  else if record.curNps = nps ∧ record.curNpsRetiredRowPfn ≠ 0 ∧ record.curNpsPaFlipMask ≠ 0 then
    some record
  else
    (env.toNps record.rom record.ipid nps).map fun (pfn, mask) =>
      { record with curNps := nps, curNpsRetiredRowPfn := pfn, curNpsPaFlipMask := mask }

/-- `ras_umc_check_retired_record`: the record in the current mode, or nothing when it is skipped. -/
def checkRetiredRecord (env : UmcEnv) (cache : UmcCache) (record : UmcRecord) : Option UmcRecord :=
  (recordToNpsRecord env record env.nps).filter fun r => r.curNpsRetiredRowPfn ∉ cache.logged

/-- `ras_umc_expand_row_pages` has pages to expand. -/
def HasRow (record : UmcRecord) : Prop :=
  record.curNpsRetiredRowPfn * 2 ^ 12 % 2 ^ 64 ≠ 0 ∧ record.curNpsPaFlipMask ≠ 0

instance (record : UmcRecord) : Decidable (HasRow record) := inferInstanceAs (Decidable (_ ∧ _))

/-- `ras_umc_convert_record_to_row_pages`, without the pages. -/
def convertRecordToRowPages (env : UmcEnv) (record : UmcRecord) : Option UmcRecord :=
  if 8 < record.curNps then none
  else
    let converted :=
      if record.curNps = 0 ∨ record.curNpsRetiredRowPfn = 0 ∨ record.curNpsPaFlipMask = 0 then
        recordToNpsRecord env record (if record.curNps = 0 then env.nps else record.curNps)
      else some record
    converted.filter fun r => HasRow r

/-- The loop of `ras_umc_add_bad_pages`: whether it went through, and what is in the cache. -/
def addLoop (env : UmcEnv) (cache : UmcCache) : List UmcRecord → Bool × UmcCache
  | [] => (true, cache)
  | record :: rest =>
    match checkRetiredRecord env cache record with
    | none => addLoop env cache rest
    | some checked =>
      match convertRecordToRowPages env checked with
      | none => (false, cache)
      | some row =>
        if !env.rom row then (false, cache)
        else
          let cached := { cache with rom := cache.rom ++ [row] }
          -- the tree takes no second record of a row
          if !env.log row || row.curNpsRetiredRowPfn ∈ cache.logged then (false, cached)
          else
            let logged := { cached with logged := row.curNpsRetiredRowPfn :: cache.logged }
            if !env.ram row then (false, logged) else addLoop env logged rest

def addBadPages (env : UmcEnv) (cache : UmcCache) (bps : List UmcRecord) : Bool × UmcCache :=
  if bps = [] ∨ env.rows = false then (false, cache) else addLoop env cache bps

def UmcRecord.loaded (record : Record) : UmcRecord := ⟨record, 0, 0, 0, 0⟩

def loadBadPages (env : UmcEnv) (t : Table) (cache : UmcCache) : Table × UmcCache :=
  if t.control.rasNumRecs = 0 then (t, cache)
  else
    match eepromRead t t.control.rasNumRecs with
    | (none, t) => (t, cache)
    | (some records, t) => (t, (addBadPages env cache (records.map UmcRecord.loaded)).2)

inductive SaveStatus
  | ok
  | einval
  | enodata
  | eio
  deriving DecidableEq

/-- `ras_umc_save_bad_pages`, with the records that are appended. -/
def saveBadPages (t : Table) (cache : UmcCache) : SaveStatus × Table × List UmcRecord :=
  if cache.rom = [] then (.einval, t, [])
  else if cache.rom.length ≤ t.control.rasNumRecs then (.enodata, t, [])
  else
    let news := cache.rom.drop t.control.rasNumRecs
    match eepromAppend t (news.map UmcRecord.rom) cache.rom.length with
    | (.ok, t) => (.ok, t, news)
    | (.einval, t) => (.eio, t, [])

section Adding

variable {env : UmcEnv} {cache : UmcCache}

def rows (records : List UmcRecord) : List Nat := records.map UmcRecord.curNpsRetiredRowPfn

/-- Every row is once in the cache, and the tree has the rows of the cache. -/
structure Keyed (cache : UmcCache) : Prop where
  nodup : (rows cache.rom).Nodup
  logged : ∀ row, row ∈ cache.logged ↔ row ∈ rows cache.rom

theorem Keyed.log (h : Keyed cache) {row : UmcRecord}
    (hnew : row.curNpsRetiredRowPfn ∉ cache.logged) :
    Keyed ⟨cache.rom ++ [row], row.curNpsRetiredRowPfn :: cache.logged⟩ := by
  constructor
  · unfold rows
    rw [map_append, map_singleton]
    apply List.Nodup.append h.nodup (nodup_singleton _)
    intro key hold hkey
    rw [mem_singleton.mp hkey] at hold
    exact hnew ((h.logged _).mpr hold)
  · intro key
    unfold rows
    rw [map_append, map_singleton, mem_append, mem_singleton, mem_cons,
      h.logged]
    exact or_comm

theorem recordToNpsRecord_some {record checked : UmcRecord} {nps : Nat}
    (h : recordToNpsRecord env record nps = some checked) :
    checked.curNps = nps ∧ 0 < nps ∧ nps ≤ 8 ∧
      (checked.curNpsRetiredRowPfn ≠ 0 ∧ checked.curNpsPaFlipMask ≠ 0 ∨
        env.toNps checked.rom checked.ipid nps =
          some (checked.curNpsRetiredRowPfn, checked.curNpsPaFlipMask)) := by
  unfold recordToNpsRecord at h
  by_cases hnps : nps = 0 ∨ 9 ≤ nps
  · rw [if_pos hnps] at h
    cases h
  · rw [if_neg hnps] at h
    by_cases hsame : record.curNps = nps ∧ record.curNpsRetiredRowPfn ≠ 0 ∧
        record.curNpsPaFlipMask ≠ 0
    · rw [if_pos hsame] at h
      cases h
      exact ⟨hsame.1, by omega, by omega, .inl hsame.2⟩
    · rw [if_neg hsame] at h
      obtain ⟨⟨pfn, mask⟩, htrans, rfl⟩ := Option.map_eq_some_iff.mp h
      exact ⟨rfl, by omega, by omega, .inr htrans⟩

theorem convertRecordToRowPages_some {record checked row : UmcRecord}
    (hcheck : checkRetiredRecord env cache record = some checked)
    (hconvert : convertRecordToRowPages env checked = some row) :
    row = checked ∧ row.curNpsRetiredRowPfn ∉ cache.logged := by
  obtain ⟨htrans, hnew⟩ := Option.filter_eq_some_iff.mp hcheck
  obtain ⟨hcur, hpos, hle, hrow⟩ := recordToNpsRecord_some htrans
  have hagain : (if checked.curNps = 0 ∨ checked.curNpsRetiredRowPfn = 0 ∨
        checked.curNpsPaFlipMask = 0 then
      recordToNpsRecord env checked (if checked.curNps = 0 then env.nps else checked.curNps)
      else some checked) = some checked := by
    by_cases hmissing : checked.curNps = 0 ∨ checked.curNpsRetiredRowPfn = 0 ∨
        checked.curNpsPaFlipMask = 0
    · have hsame : env.toNps checked.rom checked.ipid env.nps =
          some (checked.curNpsRetiredRowPfn, checked.curNpsPaFlipMask) := by
        rcases hrow with ⟨hpfn, hmask⟩ | hsame
        · omega
        · exact hsame
      have hmode : (if checked.curNps = 0 then env.nps else checked.curNps) = env.nps := by
        rw [if_neg (by omega), hcur]
      rw [if_pos hmissing, hmode]
      unfold recordToNpsRecord
      rw [if_neg (by omega), if_neg (by omega), hsame]
      simp only [Option.map_some, ← hcur]
    · rw [if_neg hmissing]
  unfold convertRecordToRowPages at hconvert
  rw [if_neg (by omega)] at hconvert
  simp only [hagain] at hconvert
  obtain ⟨hsame, _⟩ := Option.filter_eq_some_iff.mp hconvert
  cases hsame
  exact ⟨rfl, by simpa using hnew⟩

theorem addLoop_keyed (hlog : ∀ record, env.log record = true) (bps : List UmcRecord)
    (h : Keyed cache) : Keyed (addLoop env cache bps).2 ∧
      ∃ news, (addLoop env cache bps).2.rom = cache.rom ++ news := by
  induction bps generalizing cache with
  | nil => exact ⟨h, [], (append_nil _).symm⟩
  | cons record rest ih =>
    unfold addLoop
    cases hcheck : checkRetiredRecord env cache record with
    | none => exact ih h
    | some checked =>
      simp only
      cases hconvert : convertRecordToRowPages env checked with
      | none => exact ⟨h, [], (append_nil _).symm⟩
      | some row =>
        obtain ⟨_, hnew⟩ := convertRecordToRowPages_some hcheck hconvert
        simp only [hlog, hnew, decide_false, Bool.not_true, Bool.or_self, Bool.false_eq_true,
          if_false]
        cases env.rom row with
        | false => exact ⟨h, [], (append_nil _).symm⟩
        | true =>
          have hlogged := h.log hnew
          cases env.ram row with
          | false => exact ⟨hlogged, [row], rfl⟩
          | true =>
            obtain ⟨hkeyed, news, hnews⟩ := ih hlogged
            refine ⟨hkeyed, row :: news, hnews.trans ?_⟩
            simp

theorem addBadPages_keyed (hlog : ∀ record, env.log record = true) (bps : List UmcRecord)
    (h : Keyed cache) : Keyed (addBadPages env cache bps).2 ∧
      ∃ news, (addBadPages env cache bps).2.rom = cache.rom ++ news := by
  unfold addBadPages
  split
  · exact ⟨h, [], (append_nil _).symm⟩
  · exact addLoop_keyed hlog bps h

def romRow (env : UmcEnv) (record : Record) : Option Nat :=
  (env.toNps record 0 env.nps).map Prod.fst

/-- Load skips none of these records: they all have a row in the current mode, no two the same one,
and there is memory for them. -/
structure Loadable (env : UmcEnv) (records : List Record) : Prop where
  nps : 0 < env.nps ∧ env.nps ≤ 8
  memory : env.rows = true ∧ ∀ record, env.rom record ∧ env.log record ∧ env.ram record
  row : ∀ record ∈ records, ∃ pfn mask, env.toNps record 0 env.nps = some (pfn, mask) ∧
    pfn * 2 ^ 12 % 2 ^ 64 ≠ 0 ∧ mask ≠ 0
  distinct : (records.map (romRow env)).Nodup

theorem addLoop_loads {records : List Record} (hload : Loadable env records)
    (hnew : ∀ record ∈ records, ∀ row ∈ romRow env record, row ∉ cache.logged) :
    (addLoop env cache (records.map UmcRecord.loaded)).2.rom.map UmcRecord.rom =
      cache.rom.map UmcRecord.rom ++ records := by
  induction records generalizing cache with
  | nil => simp [addLoop]
  | cons record rest ih =>
    obtain ⟨pfn, mask, htrans, hpfn, hmask⟩ := hload.row record mem_cons_self
    have hrow : romRow env record = some pfn := by
      unfold romRow
      rw [htrans]
      rfl
    have hfresh : pfn ∉ cache.logged := hnew record mem_cons_self pfn hrow
    obtain ⟨hpos, hle⟩ := hload.nps
    have hcheck : checkRetiredRecord env cache (UmcRecord.loaded record) =
        some ⟨record, 0, env.nps, pfn, mask⟩ := by
      unfold checkRetiredRecord recordToNpsRecord UmcRecord.loaded
      rw [if_neg (by omega), if_neg (by simp)]
      simp only [htrans, Option.map_some, Option.filter_some]
      rw [if_pos (by simpa using hfresh)]
    have hconvert : convertRecordToRowPages env ⟨record, 0, env.nps, pfn, mask⟩ =
        some ⟨record, 0, env.nps, pfn, mask⟩ := by
      have hpfn' : pfn ≠ 0 := by
        intro h
        rw [h, Nat.zero_mul, Nat.zero_mod] at hpfn
        exact hpfn rfl
      have hhas : HasRow ⟨record, 0, env.nps, pfn, mask⟩ := ⟨hpfn, hmask⟩
      unfold convertRecordToRowPages
      rw [if_neg (by simp only; omega), if_neg (by simp only; omega), Option.filter_some,
        if_pos (decide_eq_true hhas)]
    have hdistinct := hload.distinct
    rw [map_cons, nodup_cons] at hdistinct
    have hrest : Loadable env rest :=
      ⟨hload.nps, hload.memory, fun r hr => hload.row r (mem_cons_of_mem _ hr), hdistinct.2⟩
    obtain ⟨_, hmemory⟩ := hload.memory
    rw [map_cons]
    unfold addLoop
    simp only [hcheck, hconvert, (hmemory _).1, (hmemory _).2.1, (hmemory _).2.2, hfresh,
      decide_false, Bool.not_true, Bool.or_self, Bool.false_eq_true, if_false]
    rw [ih hrest]
    · simp
    · intro r hr row hrowr hin
      rcases mem_cons.mp hin with heq | hold
      · apply hdistinct.1
        rw [hrow, ← heq, ← Option.mem_def.mp hrowr]
        exact mem_map_of_mem hr
      · exact hnew r (mem_cons_of_mem _ hr) row hrowr hold

end Adding

section Runs

/-- The driver with its table and its cache, the rows that were loaded, the records added at
runtime, the rows that were saved, and for each successful save what was read after it and what had
been added before it. -/
structure UmcSys where
  table : Table
  cache : UmcCache
  loaded : List Nat
  added : List UmcRecord
  written : List Nat
  saves : List (Option (List Record) × List UmcRecord)

inductive UmcEvent
  /-- bad pages are found -/
  | add (env : UmcEnv) (bps : List UmcRecord)
  | save
  /-- `ras_core_eeprom_recovery` after a reset of the GPU -/
  | recover (env : UmcEnv)

/-- `ras_core_eeprom_recovery` of a driver. -/
def recovered (env : UmcEnv) (s : UmcSys) : UmcSys :=
  if s.table.control.rasNumRecs ≤ s.cache.rom.length then s
  else
    let (table, cache) := loadBadPages env s.table s.cache
    { s with table, cache }

def umcNext (s : UmcSys) : UmcEvent → UmcSys
  | .add env bps =>
    let cache := (addBadPages env s.cache bps).2
    { s with cache, added := s.added ++ cache.rom.drop s.cache.rom.length }
  | .save =>
    match saveBadPages s.table s.cache with
    | (.ok, table, news) =>
      { s with
        table, written := s.written ++ rows news, saves := s.saves ++ [(readAll table, s.added)] }
    | (_, table, _) => { s with table }
  | .recover env => recovered env s

def umcStep (s : UmcSys) (e : UmcEvent) (s' : UmcSys) : Prop := s' = umcNext s e

def loadedSys (env : UmcEnv) (t : Table) : UmcSys :=
  let (table, cache) := loadBadPages env t ⟨[], []⟩
  ⟨table, cache, rows cache.rom, [], [], []⟩

def UmcStart (s : UmcSys) : Prop :=
  ∃ env t, Initialised t.control ∧ s = loadedSys env t

def LoadableStart (s : UmcSys) : Prop :=
  ∃ env t, Initialised t.control ∧ Loadable env ((live t).map Record.ofBuf) ∧ s = loadedSys env t

/-- The tree has memory for what is put into it, and the cache is counted in 32 bits. -/
def Logging (s : UmcSys) : UmcEvent → Prop
  | .add env _ => ∀ record, env.log record = true
  | .save => s.cache.rom.length < 2 ^ 31
  | .recover _ => True

def UmcRun : UmcSys → Prop := Transition.Run UmcStart umcStep Transition.always

def LoadableRun : UmcSys → Prop := Transition.Run LoadableStart umcStep Logging

/-- Every save that succeeds leaves all that was added at runtime in the EEPROM, and no row is
written that was there or was written before. -/
structure AllSaved (s : UmcSys) : Prop where
  present : ∀ save ∈ s.saves, ∃ records, save.1 = some records ∧
    ∀ record ∈ save.2, record.rom.stored ∈ records
  once : (s.loaded ++ s.written).Nodup

/-- What every run keeps: the records in the EEPROM are the first ones of the cache. -/
structure UmcInv (s : UmcSys) : Prop where
  sized : Sized s.table.control
  behind : RecordsBehind s.table.control
  keyed : Keyed s.cache
  count : s.table.control.rasNumRecs ≤ s.cache.rom.length
  first : (live s.table).map Record.ofBuf =
    (s.cache.rom.take s.table.control.rasNumRecs).map fun record => record.rom.stored
  written : s.loaded ++ s.written = rows (s.cache.rom.take s.table.control.rasNumRecs)
  added : ∀ record ∈ s.added, record ∈ s.cache.rom
  saves : ∀ save ∈ s.saves, ∃ records, save.1 = some records ∧
    ∀ record ∈ save.2, record.rom.stored ∈ records

variable {s : UmcSys}

theorem UmcInv.add (h : UmcInv s) {env : UmcEnv} (hlog : ∀ record, env.log record = true)
    (bps : List UmcRecord) : UmcInv (umcNext s (.add env bps)) := by
  obtain ⟨hkeyed, news, hnews⟩ := addBadPages_keyed hlog bps h.keyed
  have htake : (addBadPages env s.cache bps).2.rom.take s.table.control.rasNumRecs =
      s.cache.rom.take s.table.control.rasNumRecs := by
    rw [hnews, take_append_of_le_length h.count]
  unfold umcNext
  refine ⟨h.sized, h.behind, hkeyed, ?_, ?_, ?_, ?_, h.saves⟩
  · show _ ≤ (addBadPages env s.cache bps).2.rom.length
    rw [hnews, length_append]
    exact Nat.le_trans h.count (Nat.le_add_right ..)
  · simp only [htake]
    exact h.first
  · simp only [htake]
    exact h.written
  · simp only [hnews, drop_left]
    intro record hrecord
    rcases mem_append.mp hrecord with hold | hnew
    · exact mem_append_left _ (h.added record hold)
    · exact mem_append_right _ hnew

theorem saveBadPages_cases (hsized : Sized s.table.control) (hbehind : RecordsBehind s.table.control)
    (hlength : s.cache.rom.length < 2 ^ 31) :
    (saveBadPages s.table s.cache).1 ≠ .ok ∧ (saveBadPages s.table s.cache).2.1 = s.table ∨
      ∃ table, saveBadPages s.table s.cache =
          (.ok, table, s.cache.rom.drop s.table.control.rasNumRecs) ∧
        Sized table.control ∧ RecordsBehind table.control ∧
        table.control.rasNumRecs = s.cache.rom.length ∧
        (live table).map Record.ofBuf = (live s.table).map Record.ofBuf ++
          (s.cache.rom.drop s.table.control.rasNumRecs).map fun record => record.rom.stored := by
  unfold saveBadPages
  by_cases hempty : s.cache.rom = []
  · rw [if_pos hempty]
    exact .inl ⟨nofun, rfl⟩
  · rw [if_neg hempty]
    by_cases hnone : s.cache.rom.length ≤ s.table.control.rasNumRecs
    · rw [if_pos hnone]
      exact .inl ⟨nofun, rfl⟩
    · rw [if_neg hnone]
      have hlen : ((s.cache.rom.drop s.table.control.rasNumRecs).map UmcRecord.rom).length =
          s.cache.rom.length - s.table.control.rasNumRecs := by
        rw [length_map, length_drop]
      have hok := @eepromAppend_ok s.table
        ((s.cache.rom.drop s.table.control.rasNumRecs).map UmcRecord.rom) s.cache.rom.length hsized
        hbehind (by omega)
      have hfail := @eepromAppend_einval s.table
        ((s.cache.rom.drop s.table.control.rasNumRecs).map UmcRecord.rom) s.cache.rom.length
      rw [hlen, map_map] at hok
      simp only
      cases happend : eepromAppend s.table
        ((s.cache.rom.drop s.table.control.rasNumRecs).map UmcRecord.rom) s.cache.rom.length with
      | mk status table =>
        rw [happend] at hok hfail
        cases status with
        | einval => exact .inl ⟨nofun, hfail rfl⟩
        | ok =>
          obtain ⟨hsized', hbehind', hnum, hlive⟩ := hok rfl
          refine .inr ⟨table, rfl, hsized', hbehind', ?_, hlive⟩
          rw [hnum]
          omega

theorem UmcInv.save (h : UmcInv s) (hlength : s.cache.rom.length < 2 ^ 31) :
    UmcInv (umcNext s .save) := by
  unfold umcNext
  rcases saveBadPages_cases h.sized h.behind hlength with
    ⟨hfail, htable⟩ | ⟨table, hsave, hsized, hbehind, hnum, hlive⟩
  · cases hcase : saveBadPages s.table s.cache with
    | mk status rest =>
      rw [hcase] at hfail htable
      cases status with
      | ok => exact absurd rfl hfail
      | einval | enodata | eio =>
        simp only at htable
        simp only [htable]
        exact h
  · have htake : s.cache.rom.take table.control.rasNumRecs = s.cache.rom := by
      rw [hnum, take_length]
    have hall : (live table).map Record.ofBuf =
        s.cache.rom.map fun record => record.rom.stored := by
      rw [hlive, h.first, ← map_append, take_append_drop]
    simp only [hsave]
    refine ⟨hsized, hbehind, h.keyed, Nat.le_of_eq hnum, ?_, ?_, h.added, ?_⟩
    · simp only [htake]
      exact hall
    · simp only [htake]
      rw [← append_assoc, h.written]
      unfold rows
      rw [← map_append, take_append_drop]
    · intro save hsaveIn
      rcases mem_append.mp hsaveIn with hold | hnew
      · exact h.saves save hold
      · rw [mem_singleton.mp hnew]
        refine ⟨_, readAll_live hsized, fun record hrecord => ?_⟩
        rw [hall]
        exact mem_map_of_mem (h.added record hrecord)

theorem UmcInv.step (h : UmcInv s) (e : UmcEvent) (hlogging : Logging s e) :
    UmcInv (umcNext s e) := by
  cases e with
  | add env bps => exact h.add hlogging bps
  | save => exact h.save hlogging
  | recover env =>
    show UmcInv (recovered env s)
    unfold recovered
    rw [if_pos h.count]
    exact h

theorem UmcInv.loaded {t : Table} {cache : UmcCache} (hinitialised : Initialised t.control)
    (hkeyed : Keyed cache) (hrecords : cache.rom.map UmcRecord.rom = (live t).map Record.ofBuf)
    (bitmap : Nat) (flag : Bool) :
    UmcInv ⟨⟨t.rom, { t.control with badChannelBitmap := bitmap, updateChannelFlag := flag }⟩, cache,
      rows cache.rom, [], [], []⟩ := by
  have hlength : cache.rom.length = t.control.rasNumRecs := by
    have := congrArg length hrecords
    rwa [length_map, length_map, live, window_length] at this
  have htake : cache.rom.take t.control.rasNumRecs = cache.rom := by
    rw [← hlength, take_length]
  refine ⟨⟨hinitialised.sized.fits, hinitialised.sized.fri, hinitialised.sized.num⟩,
    hinitialised.behind, hkeyed, Nat.le_of_eq hlength.symm, ?_, ?_,
    fun _ h => absurd h not_mem_nil, fun _ h => absurd h not_mem_nil⟩
  · have hstored : ((live t).map Record.ofBuf).map Record.stored = (live t).map Record.ofBuf := by
      rw [map_map]
      exact map_congr_left fun buf _ => Record.stored_ofBuf buf
    show (live t).map Record.ofBuf = (cache.rom.take t.control.rasNumRecs).map _
    rw [htake, ← hstored, ← hrecords, map_map]
    rfl
  · show rows cache.rom ++ [] = rows (cache.rom.take t.control.rasNumRecs)
    rw [htake, append_nil]

theorem UmcInv.start (hstart : LoadableStart s) : UmcInv s := by
  obtain ⟨env, t, hinitialised, hloadable, rfl⟩ := hstart
  have hempty : Keyed ⟨[], []⟩ := ⟨nodup_nil, fun row => by simp [rows]⟩
  have hlive : (live t).length = t.control.rasNumRecs := window_length
  unfold loadedSys loadBadPages
  by_cases hzero : t.control.rasNumRecs = 0
  · have hnone : live t = [] := eq_nil_of_length_eq_zero (by omega)
    rw [if_pos hzero]
    exact UmcInv.loaded hinitialised hempty (by rw [hnone]; rfl) _ _
  · have hread : eepromRead t t.control.rasNumRecs =
        (some ((live t).map Record.ofBuf), (eepromRead t t.control.rasNumRecs).2) := by
      have hfirst := eepromRead_live hinitialised.sized (Nat.pos_of_ne_zero hzero) (Nat.le_refl _)
      rw [take_of_length_le (Nat.le_of_eq hlive)] at hfirst
      rw [← hfirst]
    obtain ⟨bitmap, flag, htable⟩ := eepromRead_table t t.control.rasNumRecs
    obtain ⟨hkeyed, _⟩ := addLoop_keyed (fun record => (hloadable.memory.2 record).2.1)
      (((live t).map Record.ofBuf).map UmcRecord.loaded) hempty
    have hloads := @addLoop_loads _ ⟨[], []⟩ _ hloadable fun _ _ _ _ => not_mem_nil
    have hadd : addBadPages env ⟨[], []⟩ (((live t).map Record.ofBuf).map UmcRecord.loaded) =
        addLoop env ⟨[], []⟩ (((live t).map Record.ofBuf).map UmcRecord.loaded) := by
      unfold addBadPages
      rw [if_neg]
      rintro (hnil | hrows)
      · rw [map_eq_nil_iff, map_eq_nil_iff] at hnil
        rw [hnil] at hlive
        exact hzero hlive.symm
      · rw [hloadable.memory.1] at hrows
        cases hrows
    rw [if_neg hzero, hread]
    simp only [hadd, htable]
    exact UmcInv.loaded hinitialised hkeyed hloads bitmap flag

/-- In every run from a load that skips nothing, with memory for the tree, what was added at runtime
is in the EEPROM after every save that succeeds, and no row is written twice. -/
theorem badPages_saved (s : UmcSys) (hrun : LoadableRun s) : AllSaved s := by
  have hinv : UmcInv s := by
    apply hrun.invariant UmcInv
    · intro s hstart
      exact .start hstart
    · intro before e after h hlogging hstep
      rw [hstep]
      exact h.step e hlogging
  refine ⟨hinv.saves, ?_⟩
  rw [hinv.written]
  unfold rows
  rw [map_take]
  exact hinv.keyed.nodup.sublist (take_sublist ..)

def plainEnv : UmcEnv :=
  ⟨1, fun record _ _ => some (record.retiredRowPfn.toNat, 1), true, fun _ => true, fun _ => true,
    fun _ => true⟩

def pageRecord (pfn : UInt64) : Record := ⟨2, 0, 0, 0, 0, 0, pfn⟩

def tableOf (records : List Record) : Table := (eepromAppend (emptyTable 0).table records 1).2

theorem tableOf_one : Initialised (tableOf [pageRecord 5]).control ∧
    (live (tableOf [pageRecord 5])).map Record.ofBuf = [pageRecord 5] :=
  ⟨⟨by decide +kernel, by decide +kernel, by decide +kernel⟩, by decide +kernel⟩

/-- A page that is found is saved behind the one that was loaded. -/
theorem badPages_saved_one : ∃ s : UmcSys, LoadableRun s ∧ AllSaved s ∧
    s.saves.map Prod.fst = [some [pageRecord 5, pageRecord 6]] := by
  have hloadable : Loadable plainEnv ((live (tableOf [pageRecord 5])).map Record.ofBuf) := by
    rw [tableOf_one.2]
    refine ⟨⟨by decide, by decide⟩, ⟨rfl, fun _ => ⟨rfl, rfl, rfl⟩⟩, ?_, by decide⟩
    intro record hrecord
    rw [mem_singleton.mp hrecord]
    exact ⟨5, 1, rfl, by decide, by decide⟩
  have h0 : LoadableRun _ := .start ⟨plainEnv, _, tableOf_one.1, hloadable, rfl⟩
  have h1 : LoadableRun _ :=
    .next (.add plainEnv [UmcRecord.loaded (pageRecord 6)]) h0 (fun _ => rfl) rfl
  have h2 : LoadableRun _ := .next .save h1 (by unfold Logging; decide +kernel) rfl
  exact ⟨_, h2, badPages_saved _ h2, by decide +kernel⟩

theorem tableOf_two : Initialised (tableOf [pageRecord 5, pageRecord 5]).control :=
  ⟨by decide +kernel, by decide +kernel, by decide +kernel⟩

/-- Load skips the second record of page 5. Pages 6 and 7 are found, and the save writes page 7
only. -/
theorem skipped_record_loses : ¬ ∀ s : UmcSys, UmcRun s → AllSaved s := by
  intro h
  have h0 : UmcRun _ := .start ⟨plainEnv, _, tableOf_two, rfl⟩
  have h1 : UmcRun _ := .next (.add plainEnv [UmcRecord.loaded (pageRecord 6)]) h0 trivial rfl
  have h2 : UmcRun _ := .next (.add plainEnv [UmcRecord.loaded (pageRecord 7)]) h1 trivial rfl
  have h3 : UmcRun _ := .next .save h2 trivial rfl
  obtain ⟨records, hread, hpresent⟩ := (h _ h3).present _
    (mem_append_right _ (mem_singleton.mpr rfl))
  have hsaved : some records = some [pageRecord 5, pageRecord 5, pageRecord 7] := by
    rw [← hread]
    decide +kernel
  cases hsaved
  have hmember := hpresent ⟨pageRecord 6, 0, 1, 6, 1⟩ (by decide +kernel)
  revert hmember
  decide +kernel

end Runs

end MxGpu.Ras
