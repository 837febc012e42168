import MxGpu.EepromTags

/- The rows of the records of a table: a page stands for its row, and the first page of a row is its
least. -/
namespace MxGpu.UmcV12.Upgrade

open BitFields

section Rows

variable {adapt : Adapter} {record : EepromTableRecord} {a b page : Nat}

def rowMask (adapt : Adapter) : Nat := libgvFlipMask adapt.nps adapt.vramType

theorem testBit_rowMask (adapt : Adapter) (j : Nat) : (rowMask adapt).testBit j =
    decide (j ∈ getNpsPaMaskBits adapt.vramType adapt.nps) := by
  rw [rowMask, libgvFlipMask, testBit_setBits, Nat.zero_testBit, Bool.false_or]

theorem mem_eepromRecordToPages : page ∈ eepromRecordToPages adapt record ↔
    RowPage (memAddr adapt record) (rowMask adapt) page :=
  mem_libgvLookupBadPagesInARow adapt.nps adapt.vramType _ (le_refl 16) page

theorem rowPage_of_mem (inside : RowPage a (rowMask adapt) b) (page : Nat) :
    RowPage (b * 2 ^ 12) (rowMask adapt) page ↔ RowPage a (rowMask adapt) page := by
  apply rowPage_congr
  rwa [Nat.mul_div_cancel b (Nat.two_pow_pos 12)]

theorem rowPage_self (a mask : Nat) : RowPage (a * 2 ^ 12) mask a := by
  rw [rowPage_iff]
  intro j _
  rw [← testBit_pfn, Nat.mul_div_cancel a (Nat.two_pow_pos 12)]

theorem getNpsPaMaskBits_lt (vramType : DgpuVramType) (nps : Nat) :
    ∀ bit ∈ getNpsPaMaskBits vramType nps, bit < 36 := by
  unfold getNpsPaMaskBits
  by_cases two : nps = 2
  · cases vramType <;> simp [two]
  · by_cases four : nps = 4
    · cases vramType <;> simp [four]
    · cases vramType <;> simp [two, four]

theorem testBit_clearNpsPaMaskBits (vramType : DgpuVramType) (pa nps : Nat) (zeroPfnOk : Bool)
    {j : Nat} (outside : j ∉ getNpsPaMaskBits vramType nps) :
    (clearNpsPaMaskBits vramType pa nps zeroPfnOk).testBit j = pa.testBit j := by
  have cleared := testBit_clearBits (getNpsPaMaskBits vramType nps) pa j
  rw [decide_eq_true outside, Bool.and_true] at cleared
  have four := (getNpsPaMaskBits_nodup nps vramType).2.1
  have third : (getNpsPaMaskBits vramType nps).getD 2 0 ≠ j := by
    rintro rfl
    apply outside
    rw [List.getD_eq_getElem _ _ (by omega)]
    exact List.getElem_mem _
  unfold clearNpsPaMaskBits
  dsimp only
  split
  · rw [Nat.testBit_or, cleared, Nat.one_shiftLeft, Nat.testBit_two_pow_of_ne third, Bool.or_false]
  · exact cleared

theorem rowPage_eepromRecordToPa (adapt : Adapter) (record : EepromTableRecord) :
    RowPage (memAddr adapt record) (rowMask adapt) (eepromRecordToPa adapt record) := by
  unfold eepromRecordToPa
  by_cases other : getNpsFromPa record.retiredPage ≠ adapt.nps
  · rw [if_pos other, rowPage_iff]
    intro j clear
    rw [testBit_rowMask, decide_eq_false_iff_not] at clear
    rw [testBit_pfn, testBit_clearNpsPaMaskBits _ _ _ _ clear]
  · rw [if_neg other, memAddr, if_neg other]
    exact rowPage_self ..

theorem memAddr_lt (narrow : record.retiredPage < 2 ^ 48) : memAddr adapt record < 2 ^ 52 := by
  unfold memAddr
  split
  · exact recordPa_lt ..
  · have small := setNpsToPa_lt narrow
    omega

theorem rowPage_lt (small : a < 2 ^ 52) (inside : RowPage a (rowMask adapt) page) :
    page < 2 ^ 40 := by
  rw [rowPage_iff] at inside
  apply Nat.lt_pow_two_of_testBit
  intro j high
  have outside : 12 + j ∉ getNpsPaMaskBits adapt.vramType adapt.nps := by
    intro listed
    have low := getNpsPaMaskBits_lt _ _ _ listed
    omega
  rw [inside j (by rw [testBit_rowMask, decide_eq_false outside])]
  exact Nat.testBit_lt_two_pow
    (Nat.lt_of_lt_of_le small (Nat.pow_le_pow_right (by decide) (by omega)))

theorem eepromRecordToPa_lt (adapt : Adapter) (narrow : record.retiredPage < 2 ^ 48) :
    eepromRecordToPa adapt record < 2 ^ 40 :=
  rowPage_lt (memAddr_lt narrow) (rowPage_eepromRecordToPa adapt record)

def firstPage (adapt : Adapter) (record : EepromTableRecord) : Nat :=
  clearNpsPaMaskBits adapt.vramType (memAddr adapt record) adapt.nps true / 2 ^ 12

theorem eepromRecordToPages_length (adapt : Adapter) (record : EepromTableRecord) :
    (eepromRecordToPages adapt record).length = 16 := by
  simp [eepromRecordToPages, libgvLookupBadPagesInARow]

theorem eepromRecordToPages_first (adapt : Adapter) (record : EepromTableRecord) :
    (eepromRecordToPages adapt record)[0]? = some (firstPage adapt record) := by
  have none_ : scatter (getNpsPaMaskBits adapt.vramType adapt.nps) 0 = 0 := by
    apply Nat.eq_of_testBit_eq
    intro j
    rw [Bool.eq_iff_iff, testBit_scatter]
    simp
  have first : flipColumn (getNpsPaMaskBits adapt.vramType adapt.nps)
      (clearNpsPaMaskBits adapt.vramType (memAddr adapt record) adapt.nps true) 0 =
      clearNpsPaMaskBits adapt.vramType (memAddr adapt record) adapt.nps true := by
    rw [flipColumn_eq, none_, Nat.or_zero]
  simp [eepromRecordToPages, libgvLookupBadPagesInARow, firstPage, first]

theorem rowPage_firstPage (adapt : Adapter) (record : EepromTableRecord) :
    RowPage (memAddr adapt record) (rowMask adapt) (firstPage adapt record) :=
  mem_eepromRecordToPages.mp
    (List.mem_of_getElem? (eepromRecordToPages_first adapt record))

theorem firstPage_le (inside : RowPage (memAddr adapt record) (rowMask adapt) page) :
    firstPage adapt record ≤ page := by
  rw [rowPage_iff] at inside
  have part : firstPage adapt record &&& page = firstPage adapt record := by
    apply Nat.eq_of_testBit_eq
    intro j
    rw [Nat.testBit_and, firstPage, testBit_pfn]
    by_cases listed : 12 + j ∈ getNpsPaMaskBits adapt.vramType adapt.nps
    · have cleared := testBit_clearBits (getNpsPaMaskBits adapt.vramType adapt.nps)
        (memAddr adapt record) (12 + j)
      rw [decide_eq_false (not_not.mpr listed), Bool.and_false] at cleared
      have whole : clearNpsPaMaskBits adapt.vramType (memAddr adapt record) adapt.nps true =
          (getNpsPaMaskBits adapt.vramType adapt.nps).foldl
            (fun maskPa bit => maskPa ^^^ (maskPa &&& 1 <<< bit)) (memAddr adapt record) := by
        simp [clearNpsPaMaskBits]
      rw [whole, cleared, Bool.false_and]
    · rw [testBit_clearNpsPaMaskBits _ _ _ _ listed,
        inside j (by rw [testBit_rowMask, decide_eq_false listed]), Bool.and_self]
  rw [← part]
  exact Nat.and_le_right

end Rows

end MxGpu.UmcV12.Upgrade
