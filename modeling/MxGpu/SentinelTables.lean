import MxGpu.Sentinel

/- The tables of the sentinel as a map from indexes to entries: the bitmaps mark what is free, and
an insertion or a removal changes one entry. -/
namespace MxGpu.Sentinel

open FreeBits Function

/-- A row is marked when it has a free entry, an entry is marked when it is free. -/
structure Table.Fits (table : Table) : Prop where
  row : Marks table.rowBitmap fun i => table.colBitmap i ≠ 0
  col : ∀ i < tableRow, Marks (table.colBitmap i) fun j =>
    (table.entries (i * tableCol + j)).pointer = 0
  free : ∀ index, (table.entries index).pointer = 0 → table.entries index = .zero

/-- A table is marked when it is there and has a row with a free entry. -/
structure Manager.Fits (msm : Manager) : Prop where
  count : msm.tablesCount ≤ tableMax
  marks : Marks msm.tableBitmap fun t =>
    t < msm.tablesCount ∧ (msm.tables t).rowBitmap ≠ 0
  tables : ∀ t < msm.tablesCount, (msm.tables t).Fits

def Manager.entryAt (msm : Manager) (index : Nat) : Entry :=
  (msm.tables (index / (tableRow * tableCol))).entries (index % (tableRow * tableCol))

def Manager.capacity (msm : Manager) : Nat := msm.tablesCount * (tableRow * tableCol)

section Tables

variable {table : Table} {i j : Nat}

theorem newTable_fits : newTable.Fits := by
  constructor
  · intro i hi
    have hset : newTable.rowBitmap.getLsbD i = true := by
      simp only [newTable, BitVec.getLsbD_allOnes, hi, decide_true]
    simp only [hset, true_iff]
    exact ne_zero_of_bit (show (BitVec.allOnes 64).getLsbD 0 = true by decide)
  · intro i _ j hj
    have hset : (newTable.colBitmap i).getLsbD j = true := by
      simp only [newTable, BitVec.getLsbD_allOnes, hj, decide_true]
    simp only [hset, true_iff]
    rfl
  · intro index _
    rfl

theorem place_inj {i j k l : Nat} (hj : j < tableCol) (hl : l < tableCol) :
    i * tableCol + j = k * tableCol + l ↔ i = k ∧ j = l := by
  simp only [tableCol] at *
  omega

theorem Table.Fits.insert (h : table.Fits) (hi : i < tableRow) (hj : j < tableCol) {entry : Entry}
    (hentry : entry.pointer ≠ 0) :
    Table.Fits
      { rowBitmap := clearIf (clearIf true j (table.colBitmap i) = 0) i table.rowBitmap
        colBitmap := update table.colBitmap i (clearIf true j (table.colBitmap i))
        entries := update table.entries (i * tableCol + j) entry } := by
  constructor
  · apply (h.row.clearIf _ i).congr
    intro k _
    by_cases hk : k = i
    · subst hk
      simp only [update_self, decide_eq_true_eq, and_true]
      constructor
      · exact fun hboth => hboth.2
      · exact fun hne => ⟨clearIf_ne_zero hne, hne⟩
    · simp [hk]
  · intro k hk
    by_cases hki : k = i
    · subst hki
      simp only [update_self]
      apply ((h.col k hk).clearIf true j).congr
      intro l hl
      by_cases hlj : l = j
      · subst hlj
        simp [hentry]
      · simp [hlj]
    · simp only [update_of_ne hki]
      apply (h.col k hk).congr
      intro l hl
      have hne : k * tableCol + l ≠ i * tableCol + j := by
        intro heq
        exact hki ((place_inj hl hj).mp heq).1
      simp [hne]
  · intro index
    by_cases hindex : index = i * tableCol + j
    · simp [hindex, hentry]
    · simp only [update_of_ne hindex]
      exact h.free index

theorem Table.Fits.remove (h : table.Fits) (hi : i < tableRow) (hj : j < tableCol) :
    Table.Fits
      { rowBitmap := setBit i table.rowBitmap
        colBitmap := update table.colBitmap i (setBit j (table.colBitmap i))
        entries := update table.entries (i * tableCol + j) .zero } := by
  constructor
  · apply (h.row.setBit i).congr
    intro k _
    by_cases hk : k = i
    · subst hk
      have hne : setBit j (table.colBitmap k) ≠ 0 := setBit_ne_zero hj
      simp only [update_self, or_true, true_iff]
      exact hne
    · simp [hk]
  · intro k hk
    by_cases hki : k = i
    · subst hki
      simp only [update_self]
      apply ((h.col k hk).setBit j).congr
      intro l hl
      by_cases hlj : l = j
      · subst hlj
        simp [Entry.zero]
      · simp [hlj]
    · simp only [update_of_ne hki]
      apply (h.col k hk).congr
      intro l hl
      have hne : k * tableCol + l ≠ i * tableCol + j := by
        intro heq
        exact hki ((place_inj hl hj).mp heq).1
      simp [hne]
  · intro index
    by_cases hindex : index = i * tableCol + j
    · simp [hindex]
    · simp only [update_of_ne hindex]
      exact h.free index

end Tables

section Manager

variable {msm : Manager} {index : Nat}

theorem Manager.Fits.index_lt (h : msm.Fits) (hindex : index < msm.capacity) :
    index < entryIndexMax ∧ index / (tableRow * tableCol) % tableMax =
      index / (tableRow * tableCol) ∧ index / (tableRow * tableCol) < msm.tablesCount := by
  have hcount := h.count
  simp only [Manager.capacity, tableRow, tableCol, tableMax, entryIndexMax] at *
  omega

theorem Manager.Fits.getEntryByIndex (h : msm.Fits) (hindex : index < msm.capacity) :
    msm.getEntryByIndex index = some (msm.entryAt index) := by
  obtain ⟨hmax, htable, hcount⟩ := h.index_lt hindex
  rw [Manager.getEntryByIndex, if_neg (by omega)]
  simp only [htable]
  rw [if_neg (by omega)]
  rfl

theorem Manager.getEntryByIndex_some {entry : Entry}
    (hsome : msm.getEntryByIndex index = some entry) :
    ∃ k < msm.capacity, entry = msm.entryAt k := by
  rw [Manager.getEntryByIndex] at hsome
  split at hsome
  case isTrue => exact absurd hsome.symm (Option.some_ne_none entry)
  case isFalse =>
    dsimp only at hsome
    split at hsome
    case isTrue => exact absurd hsome.symm (Option.some_ne_none entry)
    case isFalse hcount =>
      have hentry := (Option.some.inj hsome).symm
      generalize index / (tableRow * tableCol) % tableMax = t at hcount hentry
      refine ⟨t * (tableRow * tableCol) + index % (tableRow * tableCol), ?_, ?_⟩
      · simp only [Manager.capacity, tableRow, tableCol] at *
        omega
      · rw [hentry, Manager.entryAt]
        have hdiv : (t * (tableRow * tableCol) + index % (tableRow * tableCol)) /
            (tableRow * tableCol) = t := by
          simp only [tableRow, tableCol]
          omega
        have hmod : (t * (tableRow * tableCol) + index % (tableRow * tableCol)) %
            (tableRow * tableCol) = index % (tableRow * tableCol) := by
          simp only [tableRow, tableCol]
          omega
        rw [hdiv, hmod]

theorem Manager.entryAt_update (msm : Manager) (tableBitmap : BitVec 64) {t i j : Nat}
    (hi : i < tableRow) (hj : j < tableCol) (table : Table) (entry : Entry)
    (htable : table.entries = update (msm.tables t).entries (i * tableCol + j) entry)
    (k : Nat) :
    Manager.entryAt { msm with tableBitmap, tables := update msm.tables t table } k =
      if k = i * tableCol + j + t * (tableRow * tableCol) then entry else msm.entryAt k := by
  simp only [Manager.entryAt]
  by_cases hk : k / (tableRow * tableCol) = t
  · rw [hk, update_self, htable]
    by_cases hmod : k % (tableRow * tableCol) = i * tableCol + j
    · rw [hmod, update_self, if_pos]
      simp only [tableRow, tableCol] at *
      omega
    · rw [update_of_ne hmod, if_neg]
      simp only [tableRow, tableCol] at *
      omega
  · rw [update_of_ne hk, if_neg]
    simp only [tableRow, tableCol] at *
    omega

structure Inserted (msm msm' : Manager) (entry : Entry) (index : Nat) : Prop where
  fits : msm'.Fits
  count : msm'.tablesCount = msm.tablesCount
  inside : index < msm.capacity
  free : (msm.entryAt index).pointer = 0
  entries : ∀ k, msm'.entryAt k = if k = index then entry else msm.entryAt k

theorem Manager.Fits.insertEntry (h : msm.Fits) (hne : msm.tableBitmap ≠ 0) {pointer : Nat}
    (hpointer : pointer ≠ 0) (allocFuncSymbol : BitVec 64) (size : Nat) (type : AllocType) :
    Inserted msm (msm.insertEntry pointer allocFuncSymbol size type).1
      ⟨pointer, allocFuncSymbol, type, size % 2 ^ 32⟩
      (msm.insertEntry pointer allocFuncSymbol size type).2 := by
  obtain ⟨-, hcount, hrow⟩ := h.marks.ffs hne
  have htable := h.tables _ hcount
  obtain ⟨hi, hcol⟩ := htable.row.ffs hrow
  obtain ⟨hj, hfree⟩ := (htable.col _ hi).ffs hcol
  rw [Manager.insertEntry, if_neg hne]
  dsimp only
  generalize ffs msm.tableBitmap = t at *
  generalize ffs (msm.tables t).rowBitmap = i at *
  generalize ffs ((msm.tables t).colBitmap i) = j at *
  constructor
  · constructor
    · exact h.count
    · apply (h.marks.clearIf _ t).congr
      intro k _
      by_cases hk : k = t
      · subst hk
        simp only [update_self, decide_eq_true_eq, and_true]
        constructor
        · exact fun hboth => ⟨hboth.1.1, hboth.2⟩
        · exact fun hboth => ⟨⟨hboth.1, clearIf_ne_zero hboth.2⟩, hboth.2⟩
      · simp [hk]
    · intro k hk
      by_cases hkt : k = t
      · subst hkt
        simp only [update_self]
        exact htable.insert hi hj hpointer
      · simp only [update_of_ne hkt]
        exact h.tables k hk
  · rfl
  · simp only [Manager.capacity, tableRow, tableCol] at *
    omega
  · have hdiv : (i * tableCol + j + t * (tableRow * tableCol)) / (tableRow * tableCol) = t := by
      simp only [tableRow, tableCol] at *
      omega
    have hmod : (i * tableCol + j + t * (tableRow * tableCol)) % (tableRow * tableCol) =
        i * tableCol + j := by
      simp only [tableRow, tableCol] at *
      omega
    rw [Manager.entryAt, hdiv, hmod]
    exact hfree
  · intro k
    apply msm.entryAt_update
    · exact hi
    · exact hj
    · rfl

structure Removed (msm msm' : Manager) (index : Nat) : Prop where
  fits : msm'.Fits
  count : msm'.tablesCount = msm.tablesCount
  entries : ∀ k, msm'.entryAt k = if k = index then .zero else msm.entryAt k

theorem Manager.Fits.removeEntry (h : msm.Fits) (hindex : index < msm.capacity) :
    Removed msm (msm.removeEntry index) index := by
  obtain ⟨hmax, hmod, hcount⟩ := h.index_lt hindex
  rw [Manager.removeEntry, if_neg (by omega)]
  simp only [hmod]
  rw [if_neg (by omega)]
  have hplace : index % (tableRow * tableCol) =
      index % (tableRow * tableCol) / tableCol % tableRow * tableCol +
        index % (tableRow * tableCol) % tableCol := by
    simp only [tableRow, tableCol]
    omega
  have hall : index = index % (tableRow * tableCol) +
      index / (tableRow * tableCol) * (tableRow * tableCol) := by
    simp only [tableRow, tableCol]
    omega
  have hi : index % (tableRow * tableCol) / tableCol % tableRow < tableRow :=
    Nat.mod_lt _ (by decide)
  have hj : index % (tableRow * tableCol) % tableCol < tableCol := Nat.mod_lt _ (by decide)
  generalize index / (tableRow * tableCol) = t at *
  generalize index % (tableRow * tableCol) / tableCol % tableRow = i at *
  generalize index % (tableRow * tableCol) % tableCol = j at *
  rw [hplace] at hall ⊢
  rw [hall]
  constructor
  · constructor
    · exact h.count
    · apply (h.marks.setBit t).congr
      intro k _
      by_cases hk : k = t
      · subst hk
        have hne : setBit i (msm.tables k).rowBitmap ≠ 0 := setBit_ne_zero hi
        simp only [update_self, or_true, true_iff]
        exact ⟨hcount, hne⟩
      · simp [hk]
    · intro k hk
      by_cases hkt : k = t
      · subst hkt
        simp only [update_self]
        exact (h.tables k hcount).remove hi hj
      · simp only [update_of_ne hkt]
        exact h.tables k hk
  · rfl
  · intro k
    apply msm.entryAt_update
    · exact hi
    · exact hj
    · rfl

theorem Manager.Fits.extendTable (h : msm.Fits) : msm.extendTable.Fits := by
  rw [Manager.extendTable]
  split
  case isTrue => exact h
  case isFalse hcount =>
    constructor
    · exact Nat.lt_of_not_le hcount
    · apply (h.marks.setBit msm.tablesCount).congr
      intro k _
      by_cases hk : k = msm.tablesCount
      · subst hk
        have hne : newTable.rowBitmap ≠ 0 :=
          ne_zero_of_bit (show (BitVec.allOnes 64).getLsbD 0 = true by decide)
        simp only [update_self, or_true, true_iff]
        exact ⟨Nat.lt_succ_self _, hne⟩
      · have hlt : k < msm.tablesCount + 1 ↔ k < msm.tablesCount := by omega
        simp [hk, hlt]
    · intro k hk
      by_cases hcase : k = msm.tablesCount
      · subst hcase
        simp only [update_self]
        exact newTable_fits
      · simp only [update_of_ne hcase]
        have hlt : k < msm.tablesCount + 1 := hk
        exact h.tables k (by omega)

theorem initManager_fits : initManager.Fits := by
  have hempty : Manager.Fits ⟨0, fun _ => newTable, 0⟩ := by
    constructor
    · decide
    · intro t _
      simp
    · intro t ht
      exact absurd ht (Nat.not_lt_zero t)
  exact hempty.extendTable.extendTable.extendTable.extendTable

theorem Manager.extendTable_tables (h : ∀ t, msm.tables t = newTable) (t : Nat) :
    msm.extendTable.tables t = newTable := by
  rw [Manager.extendTable]
  split
  case isTrue => exact h t
  case isFalse =>
    by_cases ht : t = msm.tablesCount
    · simp only [ht, update_self]
    · simp only [update_of_ne ht]
      exact h t

theorem initManager_entryAt (index : Nat) : initManager.entryAt index = .zero := by
  have hempty (t : Nat) : (⟨0, fun _ => newTable, 0⟩ : Manager).tables t = newTable := rfl
  have hnew : ∀ t, initManager.tables t = newTable :=
    Manager.extendTable_tables (Manager.extendTable_tables (Manager.extendTable_tables
      (Manager.extendTable_tables hempty)))
  rw [Manager.entryAt, hnew]
  rfl

theorem Manager.Fits.col_iff (h : msm.Fits) {t i j : Nat} (ht : t < msm.tablesCount)
    (hi : i < tableRow) (hj : j < tableCol) : ((msm.tables t).colBitmap i).getLsbD j = true ↔
      (msm.entryAt (t * (tableRow * tableCol) + i * tableCol + j)).pointer = 0 := by
  have hdiv : (t * (tableRow * tableCol) + i * tableCol + j) / (tableRow * tableCol) = t := by
    simp only [tableRow, tableCol] at *
    omega
  have hmod : (t * (tableRow * tableCol) + i * tableCol + j) % (tableRow * tableCol) =
      i * tableCol + j := by
    simp only [tableRow, tableCol] at *
    omega
  rw [Manager.entryAt, hdiv, hmod]
  exact (h.tables t ht).col i hi j hj

theorem Manager.Fits.row_iff (h : msm.Fits) {t i : Nat} (ht : t < msm.tablesCount)
    (hi : i < tableRow) : (msm.tables t).rowBitmap.getLsbD i = true ↔
      ∃ j < tableCol,
        (msm.entryAt (t * (tableRow * tableCol) + i * tableCol + j)).pointer = 0 := by
  apply ((h.tables t ht).row i hi).trans
  apply ((h.tables t ht).col i hi).ne_zero.trans
  constructor
  · rintro ⟨j, hj, hfree⟩
    exact ⟨j, hj, (h.col_iff ht hi hj).mp (((h.tables t ht).col i hi j hj).mpr hfree)⟩
  · rintro ⟨j, hj, hfree⟩
    exact ⟨j, hj, ((h.tables t ht).col i hi j hj).mp ((h.col_iff ht hi hj).mpr hfree)⟩

theorem Manager.Fits.table_iff (h : msm.Fits) {t : Nat} (ht : t < tableMax) :
    msm.tableBitmap.getLsbD t = true ↔ t < msm.tablesCount ∧ ∃ i < tableRow, ∃ j < tableCol,
      (msm.entryAt (t * (tableRow * tableCol) + i * tableCol + j)).pointer = 0 := by
  apply (h.marks t ht).trans
  apply and_congr_right
  intro hcount
  apply (h.tables t hcount).row.ne_zero.trans
  constructor
  · rintro ⟨i, hi, hcol⟩
    exact ⟨i, hi, (h.row_iff hcount hi).mp (((h.tables t hcount).row i hi).mpr hcol)⟩
  · rintro ⟨i, hi, hfree⟩
    exact ⟨i, hi, ((h.tables t hcount).row i hi).mp ((h.row_iff hcount hi).mpr hfree)⟩

end Manager

end MxGpu.Sentinel
