import MxGpu.RasPages
import MxGpu.Submasks

/- The pages of a row, as `rascore/ras_umc.c` finds them by the row's mask, and as both
drivers find them for UMC 12 by the bits of its partition mode (`rascore/ras_umc_v12_0.c`,
`libgv/core/hw/AI/mi300/umc_v12_0.c`). -/
namespace MxGpu.UmcV12

open BitFields Submasks Ras

/-- `enum amdgv_vram_type`, but for the types that neither driver knows. -/
inductive DgpuVramType
  | gddr5
  | hbm2
  | hbm2e
  | hbm3
  | gddr6
  | hbm3e
  | other
  deriving DecidableEq

/-- `UMC_VRAM_TYPE_*` -/
inductive UmcVramType
  | unknown
  | gddr5
  | hbm
  | gddr6
  | hbm3e
  deriving DecidableEq

def convertAtomMemTypeToVramType : DgpuVramType → UmcVramType
  | .gddr5 => .gddr5
  | .hbm2 | .hbm2e | .hbm3 => .hbm
  | .gddr6 => .gddr6
  | .hbm3e => .hbm3e
  | .other => .unknown

/-- `__get_nps_pa_flip_bits`: `flip_bits_in_pa`, of which there are `bit_num`. -/
def getNpsPaFlipBits (vramType : UmcVramType) (nps : Nat) : List Nat :=
  let first :=
    if nps = 2 then [13, 15, 20]
    else if nps = 4 then [12, 13, 19]
    else [15, 16, 21]
  let last :=
    match vramType with
    | .hbm => if nps = 2 then 34 else if nps = 4 then 33 else 35
    | .hbm3e => if nps = 2 then 33 else if nps = 4 then 32 else 34
    -- an unknown type has the bit of NPS1
    | _ => 35
  first ++ [last]

def getNpsPaFlipMask (vramType : UmcVramType) (nps : Nat) : Nat :=
  (getNpsPaFlipBits vramType nps).foldl (fun flipMask bit => flipMask ||| 1 <<< bit) 0

/-- An address with a column's bits in its place, as both drivers put them there. -/
def flipColumn (bits : List Nat) (rowPa column : Nat) : Nat :=
  bits.zipIdx.foldl (fun socPa (bit, i) => socPa ||| (column >>> i &&& 1) <<< bit) rowPa

/-- `RAS_PFN_TO_ADDR` of a record's page. -/
def retiredAddr (record : UmcRecord) : Nat := record.curNpsRetiredRowPfn * 2 ^ 12 % 2 ^ 64

/-- `lookup_bad_pages_in_a_row` of `ras_umc_v12_0.c`, without the rows and columns that it dumps. -/
def lookupBadPagesInARow (vramType : UmcVramType) (record : UmcRecord) (nps num : Nat) :
    List Nat :=
  let flipMask := getNpsPaFlipMask vramType nps
  let rowPa := retiredAddr record ^^^ (retiredAddr record &&& flipMask)
  ((List.range 16).map fun column =>
    flipColumn (getNpsPaFlipBits vramType nps) rowPa column / 2 ^ 12).take num

/-- `get_nps_pa_mask_bits` of libgv -/
def getNpsPaMaskBits (vramType : DgpuVramType) (nps : Nat) : List Nat :=
  let first :=
    if nps = 2 then [13, 15, 20]
    else if nps = 4 then [12, 13, 19]
    else [15, 16, 21]
  let last :=
    match vramType with
    | .hbm3 => if nps = 2 then 34 else if nps = 4 then 33 else 35
    | .hbm3e => if nps = 2 then 33 else if nps = 4 then 32 else 34
    | _ => 35
  first ++ [last]

/-- `clear_nps_pa_mask_bits` of libgv -/
def clearNpsPaMaskBits (vramType : DgpuVramType) (pa nps : Nat) (zeroPfnOk : Bool) : Nat :=
  let loopBits := getNpsPaMaskBits vramType nps
  let maskPa := loopBits.foldl (fun maskPa bit => maskPa ^^^ (maskPa &&& 1 <<< bit)) pa
  if !zeroPfnOk ∧ maskPa / 2 ^ 12 = 0 then maskPa ||| 1 <<< loopBits.getD 2 0 else maskPa

/-- `lookup_bad_pages_in_a_row` of libgv, without the rows and columns that it dumps. -/
def libgvLookupBadPagesInARow (vramType : DgpuVramType) (pa nps num : Nat) : List Nat :=
  let maskPa := clearNpsPaMaskBits vramType pa nps true
  ((List.range 16).map fun column =>
    flipColumn (getNpsPaMaskBits vramType nps) maskPa column / 2 ^ 12).take num

/-- `ras_umc_expand_row_pages`, or nothing with `RAS_CORE_ENOEXEC`. -/
def rasUmcExpandRowPages (record : UmcRecord) (nrPagePfns : Nat) : Option (List Nat) :=
  if HasRow record ∧ nrPagePfns ≠ 0 then some (expandRowPages record nrPagePfns) else none

def replaceBits (a mask combination : Nat) : Nat := a ^^^ (a &&& mask) ||| combination &&& mask

section Row

variable {a mask : Nat}

theorem testBit_replaceBits (a mask combination j : Nat) :
    (replaceBits a mask combination).testBit j =
      if mask.testBit j then combination.testBit j else a.testBit j := by
  simp only [replaceBits, Nat.testBit_or, Nat.testBit_xor, Nat.testBit_and]
  cases mask.testBit j <;> cases a.testBit j <;> cases combination.testBit j <;> rfl

theorem testBit_pfn (a j : Nat) : (a / 2 ^ 12).testBit j = a.testBit (12 + j) := by
  rw [Nat.testBit_div_two_pow, Nat.add_comm]

theorem testBit_granular (granular : 2 ^ 12 ∣ mask) {j : Nat} (low : j < 12) :
    mask.testBit j = false := by
  obtain ⟨pages, rfl⟩ := granular
  rw [Nat.testBit_two_pow_mul]
  simp [Nat.not_le_of_lt low]

theorem pfn_eq_iff {b : Nat} :
    a / 2 ^ 12 = b / 2 ^ 12 ↔ ∀ j, 12 ≤ j → a.testBit j = b.testBit j := by
  constructor
  · intro same j high
    obtain ⟨i, rfl⟩ := Nat.exists_eq_add_of_le high
    rw [← testBit_pfn, same, testBit_pfn]
  · intro same
    apply Nat.eq_of_testBit_eq
    intro j
    rw [testBit_pfn, testBit_pfn, same _ (Nat.le_add_right 12 j)]

def RowPage (a mask page : Nat) : Prop :=
  ∃ combination, page = replaceBits a mask combination / 2 ^ 12

theorem rowPage_iff (a mask page : Nat) : RowPage a mask page ↔
    ∀ j, mask.testBit (12 + j) = false → page.testBit j = a.testBit (12 + j) := by
  constructor
  · rintro ⟨combination, rfl⟩ j outside
    rw [testBit_pfn, testBit_replaceBits, outside]
    rfl
  · intro same
    refine ⟨page <<< 12, Nat.eq_of_testBit_eq fun j => ?_⟩
    have bit : (page <<< 12).testBit (12 + j) = page.testBit j := by simp
    rw [testBit_pfn, testBit_replaceBits, bit]
    cases inside : mask.testBit (12 + j)
    · exact same j inside
    · rfl

theorem rowPage_congr {a' : Nat} (inside : RowPage a mask (a' / 2 ^ 12)) (page : Nat) :
    RowPage a' mask page ↔ RowPage a mask page := by
  rw [rowPage_iff] at inside
  rw [rowPage_iff, rowPage_iff]
  apply forall_congr'
  intro j
  apply imp_congr_right
  intro outside
  rw [← inside j outside, testBit_pfn]

theorem rowPage_mask {mask' : Nat}
    (same : ∀ page, RowPage a mask page ↔ RowPage a mask' page) (j : Nat) :
    mask.testBit (12 + j) = mask'.testBit (12 + j) := by
  -- the page with that bit flipped is in one row only
  have flipped : ∀ m : Nat, RowPage a m (a / 2 ^ 12 ^^^ 1 <<< j) ↔ m.testBit (12 + j) = true := by
    intro m
    rw [rowPage_iff]
    constructor
    · intro agree
      by_contra outside
      have bit := agree j (Bool.eq_false_iff.mpr outside)
      rw [Nat.testBit_xor, testBit_pfn] at bit
      simp at bit
    · intro inside i outside
      have other : j ≠ i := by
        rintro rfl
        rw [inside] at outside
        cases outside
      rw [Nat.testBit_xor, testBit_pfn, Nat.one_shiftLeft, Nat.testBit_two_pow_of_ne other,
        Bool.xor_false]
  rw [Bool.eq_iff_iff, ← flipped mask, ← flipped mask']
  exact same _

end Row

section Expand

variable {rowPa mask : Nat}

theorem flippedPages_spread (rowPa : Nat) {value room : Nat} (small : value < 2 ^ weight mask)
    (fits : value ≤ room) : flippedPages rowPa mask room (spread mask value) =
      (List.range value).reverse.map fun i => (rowPa ^^^ spread mask (i + 1)) / 2 ^ 12 := by
  induction value generalizing room with
  | zero =>
    rw [spread_zero]
    cases room <;> rfl
  | succ value ih =>
    obtain ⟨room, rfl⟩ := Nat.exists_eq_add_of_lt fits
    obtain ⟨below, eq⟩ := Nat.exists_eq_add_one_of_ne_zero
      (Nat.ne_of_gt (spread_pos (Nat.succ_pos value) small))
    have next : below &&& mask = spread mask value := by
      rw [← spread_pred small, eq, Nat.add_sub_cancel]
    rw [eq, flippedPages, next, ih (by omega) (by omega), List.range_succ, List.reverse_append,
      List.reverse_singleton, List.singleton_append, List.map_cons, eq]

def values (mask : Nat) : List Nat := 0 :: (List.range (2 ^ weight mask - 1)).reverse.map (· + 1)

theorem mem_values {value : Nat} : value ∈ values mask ↔ value < 2 ^ weight mask := by
  have positive := Nat.two_pow_pos (weight mask)
  simp only [values, List.mem_cons, List.mem_map, List.mem_reverse, List.mem_range]
  constructor
  · rintro (rfl | ⟨i, less, rfl⟩) <;> omega
  · intro less
    rcases Nat.eq_zero_or_pos value with zero | above
    · exact .inl zero
    · exact .inr ⟨value - 1, by omega, by omega⟩

theorem values_nodup (mask : Nat) : (values mask).Nodup := by
  refine List.nodup_cons.mpr ⟨by simp, ?_⟩
  exact (List.nodup_reverse.mpr List.nodup_range).map (Nat.succ_injective)

theorem values_length (mask : Nat) : (values mask).length = 2 ^ weight mask := by
  have positive := Nat.two_pow_pos (weight mask)
  simp only [values, List.length_cons, List.length_map, List.length_reverse, List.length_range]
  omega

theorem clear_xor (a submask : Nat) (inside : submask &&& mask = submask) :
    (a ^^^ (a &&& mask)) ^^^ submask = replaceBits a mask submask := by
  apply Nat.eq_of_testBit_eq
  intro j
  rw [testBit_replaceBits, Nat.testBit_xor, Nat.testBit_xor, Nat.testBit_and, ← inside,
    Nat.testBit_and]
  cases mask.testBit j <;> cases a.testBit j <;> cases submask.testBit j <;> rfl

theorem expandRowPages_eq {record : UmcRecord} {nr : Nat}
    (room : 2 ^ weight record.curNpsPaFlipMask ≤ nr) :
    expandRowPages record nr = (values record.curNpsPaFlipMask).map fun value =>
      replaceBits (retiredAddr record) record.curNpsPaFlipMask
        (spread record.curNpsPaFlipMask value) / 2 ^ 12 := by
  have positive := Nat.two_pow_pos (weight record.curNpsPaFlipMask)
  have last : 2 ^ weight record.curNpsPaFlipMask - 1 < 2 ^ weight record.curNpsPaFlipMask :=
    Nat.sub_lt positive Nat.one_pos
  have loop := flippedPages_spread
    (retiredAddr record ^^^ (retiredAddr record &&& record.curNpsPaFlipMask)) last
    (Nat.sub_le_sub_right room 1)
  rw [spread_last] at loop
  have first := clear_xor (retiredAddr record) 0 (Nat.zero_and record.curNpsPaFlipMask)
  rw [Nat.xor_zero] at first
  simp only [expandRowPages]
  rw [← retiredAddr, loop, values, List.map_cons, List.map_map, spread_zero, ← first]
  congr 1
  apply List.map_congr_left
  intro i _
  rw [Function.comp_apply, ← clear_xor _ _ (spread_and _ _)]

theorem replaceBits_injective {a : Nat} (granular : 2 ^ 12 ∣ mask) {value value' : Nat}
    (small : value < 2 ^ weight mask) (small' : value' < 2 ^ weight mask)
    (same : replaceBits a mask (spread mask value) / 2 ^ 12 =
      replaceBits a mask (spread mask value') / 2 ^ 12) : value = value' := by
  apply spread_injective small small'
  rw [pfn_eq_iff] at same
  apply Nat.eq_of_testBit_eq
  intro j
  have outside : ∀ v, mask.testBit j = false → (spread mask v).testBit j = false := by
    intro v clear
    rw [← spread_and, Nat.testBit_and, clear, Bool.and_false]
  cases inside : mask.testBit j
  · rw [outside value inside, outside value' inside]
  · rcases Nat.lt_or_ge j 12 with low | high
    · rw [testBit_granular granular low] at inside
      cases inside
    · have bit := same j high
      rwa [testBit_replaceBits, testBit_replaceBits, inside] at bit

theorem expandRowPages_length {record : UmcRecord} {nr : Nat}
    (room : 2 ^ weight record.curNpsPaFlipMask ≤ nr) :
    (expandRowPages record nr).length = 2 ^ weight record.curNpsPaFlipMask := by
  rw [expandRowPages_eq room, List.length_map, values_length]

theorem expandRowPages_nodup {record : UmcRecord} {nr : Nat}
    (granular : 2 ^ 12 ∣ record.curNpsPaFlipMask)
    (room : 2 ^ weight record.curNpsPaFlipMask ≤ nr) : (expandRowPages record nr).Nodup := by
  rw [expandRowPages_eq room]
  refine List.Nodup.map_on ?_ (values_nodup _)
  intro value listed value' listed' same
  exact replaceBits_injective granular (mem_values.mp listed) (mem_values.mp listed') same

theorem mem_expandRowPages {record : UmcRecord} {nr : Nat}
    (room : 2 ^ weight record.curNpsPaFlipMask ≤ nr) (page : Nat) :
    page ∈ expandRowPages record nr ↔
      RowPage (retiredAddr record) record.curNpsPaFlipMask page := by
  rw [expandRowPages_eq room, List.mem_map]
  constructor
  · rintro ⟨value, -, rfl⟩
    exact ⟨_, rfl⟩
  · rintro ⟨combination, rfl⟩
    refine ⟨gather (record.curNpsPaFlipMask).bitIndices combination,
      mem_values.mpr (gather_lt _ _), ?_⟩
    rw [replaceBits, replaceBits, spread_and, spread_gather]

end Expand

section Columns

variable {bits : List Nat}

theorem flipColumn_eq (bits : List Nat) (rowPa column : Nat) :
    flipColumn bits rowPa column = rowPa ||| scatter bits column := by
  have from_ : ∀ n rowPa, (bits.zipIdx n).foldl
      (fun socPa (bit, i) => socPa ||| (column >>> i &&& 1) <<< bit) rowPa =
      rowPa ||| scatter bits (column >>> n) := by
    induction bits with
    | nil =>
      intro n rowPa
      exact (Nat.or_zero rowPa).symm
    | cons bit rest ih =>
      intro n rowPa
      have one : column >>> n &&& 1 = ((column >>> n).testBit 0).toNat := by
        rw [Nat.and_one_is_mod, Nat.testBit_zero]
        rcases Nat.mod_two_eq_zero_or_one (column >>> n) with even | odd
        · simp [even]
        · simp [odd]
      rw [List.zipIdx_cons, List.foldl_cons, ih, scatter, ← one, Nat.shiftRight_add, Nat.or_assoc]
  exact from_ 0 rowPa

theorem testBit_clearBits (bits : List Nat) (pa j : Nat) :
    (bits.foldl (fun maskPa bit => maskPa ^^^ (maskPa &&& 1 <<< bit)) pa).testBit j =
      (pa.testBit j && decide (j ∉ bits)) := by
  induction bits generalizing pa with
  | nil => simp
  | cons bit rest ih =>
    rw [List.foldl_cons, ih, Nat.testBit_xor, Nat.testBit_and, Nat.one_shiftLeft,
      Nat.testBit_two_pow]
    by_cases same : bit = j
    · simp [same]
    · simp [same, Ne.symm same]

theorem testBit_setBits (bits : List Nat) (mask j : Nat) :
    (bits.foldl (fun flipMask bit => flipMask ||| 1 <<< bit) mask).testBit j =
      (mask.testBit j || decide (j ∈ bits)) := by
  induction bits generalizing mask with
  | nil => simp
  | cons bit rest ih =>
    rw [List.foldl_cons, ih, Nat.testBit_or, Nat.one_shiftLeft, Nat.testBit_two_pow]
    by_cases same : bit = j
    · simp [same]
    · simp [same, Ne.symm same]

theorem mem_columns {a mask rowPa num : Nat} (nodup : bits.Nodup) (four : bits.length = 4)
    (listed : ∀ j, mask.testBit j = decide (j ∈ bits))
    (cleared : ∀ j, rowPa.testBit j = (a.testBit j && decide (j ∉ bits))) (room : 16 ≤ num)
    (page : Nat) :
    page ∈ ((List.range 16).map fun column => flipColumn bits rowPa column / 2 ^ 12).take num ↔
      RowPage a mask page := by
  have all : ((List.range 16).map fun column =>
      flipColumn bits rowPa column / 2 ^ 12).take num =
      (List.range 16).map fun column => flipColumn bits rowPa column / 2 ^ 12 :=
    List.take_of_length_le (by simpa using room)
  -- a word in the field is a combination
  have bit : ∀ column j, (rowPa ||| scatter bits column).testBit j =
      (replaceBits a mask (scatter bits column)).testBit j := by
    intro column j
    rw [Nat.testBit_or, testBit_replaceBits, cleared, listed]
    by_cases inside : j ∈ bits
    · simp [inside]
    · simp [inside, testBit_scatter_of_not_mem inside]
  have same : ∀ column, flipColumn bits rowPa column =
      replaceBits a mask (scatter bits column) := by
    intro column
    rw [flipColumn_eq]
    exact Nat.eq_of_testBit_eq (bit column)
  rw [all, List.mem_map]
  constructor
  · rintro ⟨column, -, rfl⟩
    exact ⟨scatter bits column, by rw [same]⟩
  · rintro ⟨combination, rfl⟩
    have few := gather_lt bits combination
    rw [four] at few
    refine ⟨gather bits combination, List.mem_range.mpr few, ?_⟩
    rw [same]
    congr 1
    apply Nat.eq_of_testBit_eq
    intro j
    rw [testBit_replaceBits, testBit_replaceBits, testBit_scatter_gather nodup, listed]
    by_cases inside : j ∈ bits
    · simp [inside]
    · simp [inside]

end Columns

section Modes

variable (nps : Nat)

theorem getNpsPaFlipBits_nodup (vramType : UmcVramType) :
    (getNpsPaFlipBits vramType nps).Nodup ∧ (getNpsPaFlipBits vramType nps).length = 4 ∧
      ∀ bit ∈ getNpsPaFlipBits vramType nps, 12 ≤ bit := by
  unfold getNpsPaFlipBits
  by_cases two : nps = 2
  · cases vramType <;> simp [two]
  · by_cases four : nps = 4
    · cases vramType <;> simp [four]
    · cases vramType <;> simp [two, four]

theorem getNpsPaMaskBits_nodup (vramType : DgpuVramType) :
    (getNpsPaMaskBits vramType nps).Nodup ∧ (getNpsPaMaskBits vramType nps).length = 4 ∧
      ∀ bit ∈ getNpsPaMaskBits vramType nps, 12 ≤ bit := by
  unfold getNpsPaMaskBits
  by_cases two : nps = 2
  · cases vramType <;> simp [two]
  · by_cases four : nps = 4
    · cases vramType <;> simp [four]
    · cases vramType <;> simp [two, four]

theorem testBit_getNpsPaFlipMask (vramType : UmcVramType) (j : Nat) :
    (getNpsPaFlipMask vramType nps).testBit j = decide (j ∈ getNpsPaFlipBits vramType nps) := by
  rw [getNpsPaFlipMask, testBit_setBits, Nat.zero_testBit, Bool.false_or]

theorem maskBits_iff (vramType : DgpuVramType) :
    (∀ j, j ∈ getNpsPaMaskBits vramType nps ↔
      j ∈ getNpsPaFlipBits (convertAtomMemTypeToVramType vramType) nps) ↔
      (vramType = .hbm2 ∨ vramType = .hbm2e → nps ≠ 2 ∧ nps ≠ 4) := by
  unfold getNpsPaFlipBits getNpsPaMaskBits convertAtomMemTypeToVramType
  by_cases two : nps = 2
  · cases vramType <;> simp [two]
    all_goals exact ⟨35, by decide⟩
  · by_cases four : nps = 4
    · cases vramType <;> simp [four]
      all_goals exact ⟨35, by decide⟩
    · cases vramType <;> simp [two, four]

theorem mem_lookupBadPagesInARow (vramType : UmcVramType) (record : UmcRecord) {num : Nat}
    (room : 16 ≤ num) (page : Nat) :
    page ∈ lookupBadPagesInARow vramType record nps num ↔
      RowPage (retiredAddr record) (getNpsPaFlipMask vramType nps) page := by
  obtain ⟨nodup, four, -⟩ := getNpsPaFlipBits_nodup nps vramType
  refine mem_columns nodup four (testBit_getNpsPaFlipMask nps vramType) ?_ room page
  intro j
  rw [Nat.testBit_xor, Nat.testBit_and, testBit_getNpsPaFlipMask]
  by_cases inside : j ∈ getNpsPaFlipBits vramType nps
  · simp [inside]
  · simp [inside]

def libgvFlipMask (vramType : DgpuVramType) : Nat :=
  (getNpsPaMaskBits vramType nps).foldl (fun flipMask bit => flipMask ||| 1 <<< bit) 0

theorem mem_libgvLookupBadPagesInARow (vramType : DgpuVramType) (pa : Nat) {num : Nat}
    (room : 16 ≤ num) (page : Nat) :
    page ∈ libgvLookupBadPagesInARow vramType pa nps num ↔
      RowPage pa (libgvFlipMask nps vramType) page := by
  obtain ⟨nodup, four, -⟩ := getNpsPaMaskBits_nodup nps vramType
  refine mem_columns nodup four ?_ (testBit_clearBits _ pa) room page
  intro j
  rw [libgvFlipMask, testBit_setBits, Nat.zero_testBit, Bool.false_or]

theorem libgvFlipMask_iff (vramType : DgpuVramType) (a : Nat) :
    (∀ page, RowPage a (libgvFlipMask nps vramType) page ↔
      RowPage a (getNpsPaFlipMask (convertAtomMemTypeToVramType vramType) nps) page) ↔
      (vramType = .hbm2 ∨ vramType = .hbm2e → nps ≠ 2 ∧ nps ≠ 4) := by
  have high := (getNpsPaFlipBits_nodup nps (convertAtomMemTypeToVramType vramType)).2.2
  have high' := (getNpsPaMaskBits_nodup nps vramType).2.2
  have bit : ∀ j, (libgvFlipMask nps vramType).testBit j =
      decide (j ∈ getNpsPaMaskBits vramType nps) := by
    intro j
    rw [libgvFlipMask, testBit_setBits, Nat.zero_testBit, Bool.false_or]
  rw [← maskBits_iff]
  constructor
  · intro same j
    rcases Nat.lt_or_ge j 12 with low | above
    · constructor
      · exact fun inside => absurd (high' j inside) (Nat.not_le_of_lt low)
      · exact fun inside => absurd (high j inside) (Nat.not_le_of_lt low)
    · obtain ⟨i, rfl⟩ := Nat.exists_eq_add_of_le above
      have equal := rowPage_mask same i
      rw [bit, testBit_getNpsPaFlipMask, Bool.eq_iff_iff] at equal
      simpa using equal
  · intro same page
    have masks : libgvFlipMask nps vramType =
        getNpsPaFlipMask (convertAtomMemTypeToVramType vramType) nps := by
      apply Nat.eq_of_testBit_eq
      intro j
      rw [bit, testBit_getNpsPaFlipMask, Bool.eq_iff_iff]
      simpa using same j
    rw [masks]

end Modes

section Records

variable {record : UmcRecord} {a : Nat}

theorem retiredAddr_pfn (wide : a < 2 ^ 64) (names : record.curNpsRetiredRowPfn = a / 2 ^ 12) :
    retiredAddr record / 2 ^ 12 = a / 2 ^ 12 := by
  rw [retiredAddr, names]
  omega

theorem rowPage_retiredAddr (wide : a < 2 ^ 64) (names : record.curNpsRetiredRowPfn = a / 2 ^ 12)
    (mask page : Nat) : RowPage (retiredAddr record) mask page ↔ RowPage a mask page := by
  apply rowPage_congr
  rw [retiredAddr_pfn wide names, rowPage_iff]
  intro j _
  exact testBit_pfn a j

theorem hasRow_iff (wide : a < 2 ^ 64) (names : record.curNpsRetiredRowPfn = a / 2 ^ 12) :
    HasRow record ↔ 2 ^ 12 ≤ a ∧ record.curNpsPaFlipMask ≠ 0 := by
  unfold HasRow
  rw [names]
  apply and_congr_left'
  omega

theorem RowPage.lt {mask page : Nat} (wide : a < 2 ^ 64) (fits : mask < 2 ^ 64)
    (inside : RowPage a mask page) : page < 2 ^ 52 := by
  obtain ⟨combination, rfl⟩ := inside
  have clear : a ^^^ (a &&& mask) < 2 ^ 64 :=
    Nat.xor_lt_two_pow wide (Nat.lt_of_le_of_lt Nat.and_le_left wide)
  have small : replaceBits a mask combination < 2 ^ 64 :=
    Nat.or_lt_two_pow clear (Nat.lt_of_le_of_lt Nat.and_le_right fits)
  omega

theorem expandRowPages_congr {other : UmcRecord} {nr : Nat}
    (same : other.curNpsPaFlipMask = record.curNpsPaFlipMask)
    (room : 2 ^ weight record.curNpsPaFlipMask ≤ nr)
    (inside : RowPage (retiredAddr record) record.curNpsPaFlipMask
      (retiredAddr other / 2 ^ 12)) :
    expandRowPages other nr = expandRowPages record nr := by
  have room' : 2 ^ weight other.curNpsPaFlipMask ≤ nr := by rwa [same]
  rw [expandRowPages_eq room, expandRowPages_eq room', same]
  apply List.map_congr_left
  intro value _
  rw [pfn_eq_iff]
  intro j high
  obtain ⟨i, rfl⟩ := Nat.exists_eq_add_of_le high
  rw [testBit_replaceBits, testBit_replaceBits]
  cases outside : record.curNpsPaFlipMask.testBit (12 + i)
  · have bit := (rowPage_iff _ _ _).mp inside i outside
    rwa [testBit_pfn] at bit
  · rw [if_pos rfl, if_pos rfl]

end Records

/-- A row that is not named by page 0 is expanded to exactly its pages, whichever other page of it
a record names, and for UMC 12 the drivers find the same pages by the bits of the mode. -/
theorem row_expansion {record : UmcRecord} {a nr : Nat} (wide : a < 2 ^ 64) (named : 2 ^ 12 ≤ a)
    (names : record.curNpsRetiredRowPfn = a / 2 ^ 12) (masked : record.curNpsPaFlipMask ≠ 0)
    (fits : record.curNpsPaFlipMask < 2 ^ 64) (granular : 2 ^ 12 ∣ record.curNpsPaFlipMask)
    (room : 2 ^ weight record.curNpsPaFlipMask ≤ nr) :
    ∃ pages, rasUmcExpandRowPages record nr = some pages ∧
      pages.length = 2 ^ weight record.curNpsPaFlipMask ∧ pages.Nodup ∧
      (∀ page, page ∈ pages ↔ ∃ combination,
        page = replaceBits a record.curNpsPaFlipMask combination / 2 ^ 12) ∧
      (∀ page ∈ pages, page ≠ 0 →
        rasUmcExpandRowPages { record with curNpsRetiredRowPfn := page } nr = some pages) ∧
      ∀ (vramType : DgpuVramType) (nps num : Nat), 16 ≤ num →
        record.curNpsPaFlipMask =
          getNpsPaFlipMask (convertAtomMemTypeToVramType vramType) nps →
        (∀ page, page ∈ lookupBadPagesInARow (convertAtomMemTypeToVramType vramType) record
          nps num ↔ page ∈ pages) ∧
        ((∀ page, page ∈ libgvLookupBadPagesInARow vramType a nps num ↔ page ∈ pages) ↔
          (vramType = .hbm2 ∨ vramType = .hbm2e → nps ≠ 2 ∧ nps ≠ 4)) := by
  have positive := Nat.two_pow_pos (weight record.curNpsPaFlipMask)
  have listed : ∀ page, page ∈ expandRowPages record nr ↔
      RowPage a record.curNpsPaFlipMask page := fun page =>
    (mem_expandRowPages room page).trans (rowPage_retiredAddr wide names _ page)
  refine ⟨expandRowPages record nr, if_pos ⟨(hasRow_iff wide names).mpr ⟨named, masked⟩, by omega⟩,
    expandRowPages_length room, expandRowPages_nodup granular room, listed, ?_, ?_⟩
  · intro page inside nonzero
    have short := ((listed page).mp inside).lt wide fits
    have addr : retiredAddr { record with curNpsRetiredRowPfn := page } / 2 ^ 12 = page := by
      simp only [retiredAddr]
      omega
    have row : HasRow { record with curNpsRetiredRowPfn := page } := by
      refine ⟨?_, masked⟩
      simp only
      omega
    have same : RowPage (retiredAddr record) record.curNpsPaFlipMask
        (retiredAddr { record with curNpsRetiredRowPfn := page } / 2 ^ 12) := by
      rw [addr]
      exact (mem_expandRowPages room page).mp inside
    have again : expandRowPages { record with curNpsRetiredRowPfn := page } nr =
        expandRowPages record nr := expandRowPages_congr rfl room same
    rw [rasUmcExpandRowPages, if_pos ⟨row, by omega⟩, again]
  · intro vramType nps num enough mode
    constructor
    · intro page
      rw [mem_lookupBadPagesInARow nps _ record enough, listed, ← mode,
        rowPage_retiredAddr wide names]
    · rw [← libgvFlipMask_iff nps vramType a, ← mode]
      apply forall_congr'
      intro page
      rw [mem_libgvLookupBadPagesInARow nps vramType a enough, listed]

/-- In NPS1 with HBM3, the row of page 1 has 16 pages. -/
theorem row_expansion_nps1 : ∃ pages,
    rasUmcExpandRowPages ⟨⟨0, 0, 0, 0, 0, 0, 0⟩, 0, 1, 1, 0x800218000⟩ 16 = some pages ∧
      pages.length = 16 ∧ pages.Nodup ∧
      ∀ page, page ∈ libgvLookupBadPagesInARow .hbm3 0x1000 1 16 ↔ page ∈ pages := by
  obtain ⟨pages, expanded, length, nodup, -, -, same⟩ :=
    @row_expansion ⟨⟨0, 0, 0, 0, 0, 0, 0⟩, 0, 1, 1, 0x800218000⟩ 0x1000 16
      (by decide) (by decide) (by decide) (by decide) (by decide) (by decide) (by decide)
  have mode := same .hbm3 1 16 (by decide) (by decide)
  exact ⟨pages, expanded, length, nodup, mode.2.mpr (by decide)⟩

/-- Page 0 names no row. -/
theorem page_zero_refused : ¬ ∀ (record : UmcRecord) (nr : Nat),
    2 ^ 12 ∣ record.curNpsPaFlipMask → 2 ^ weight record.curNpsPaFlipMask ≤ nr →
      ∃ pages, rasUmcExpandRowPages record nr = some pages ∧
        pages.length = 2 ^ weight record.curNpsPaFlipMask := by
  intro all
  obtain ⟨pages, expanded, -⟩ :=
    all ⟨⟨0, 0, 0, 0, 0, 0, 0⟩, 0, 1, 0, 0x800218000⟩ 16 (by decide) (by decide)
  have refused : rasUmcExpandRowPages ⟨⟨0, 0, 0, 0, 0, 0, 0⟩, 0, 1, 0, 0x800218000⟩ 16 = none := by
    decide
  rw [refused] at expanded
  cases expanded

end MxGpu.UmcV12
