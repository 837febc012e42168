import MxGpu.BitFields
import Mathlib.Tactic.IntervalCases

/- The physical address and the bank address of UMC 12 (`rascore/ras_umc_v12_0.c`,
`libgv/core/hw/AI/mi300/umc_v12_0.c`). -/
namespace MxGpu.UmcV12

open BitFields

/-- `UMC_V12_0_PA_SID0_BIT` and on -/
def sidBits : List Nat := [36, 37]

/-- `UMC_V12_0_PA_B0_BIT` and on -/
def bankBits : List Nat := [19, 20, 17, 18]

/-- `UMC_V12_0_PA_R0_BIT` and on -/
def rowBits : List Nat := [22, 23, 24, 25, 26, 27, 28, 29, 30, 31, 32, 33, 34, 35]

/-- `UMC_V12_0_PA_C0_BIT` and on -/
def colBits : List Nat := [5, 6, 15, 16, 21]

/-- `UMC_V12_0_PA_CH0_BIT` and on -/
def chBits : List Nat := [8, 9, 10, 11, 12, 13, 14]

/-- `UMC_V12_0_PA_PC0_BIT` -/
def pcBits : List Nat := [7]

def channelHashCh4 (channelIdx pa : Nat) : Bool :=
  channelIdx.testBit 5 ^^ pa.testBit 20 ^^ pa.testBit 27 ^^ pa.testBit 34 ^^ pa.testBit 41

def channelHashCh5 (channelIdx pa : Nat) : Bool :=
  channelIdx.testBit 6 ^^ pa.testBit 21 ^^ pa.testBit 28 ^^ pa.testBit 35 ^^ pa.testBit 42

def channelHashCh6 (channelIdx pa : Nat) : Bool :=
  channelIdx.testBit 4 ^^ pa.testBit 19 ^^ pa.testBit 26 ^^ pa.testBit 33 ^^ pa.testBit 40 ^^
    pa.testBit 47

def setChannelHash (channelIdx pa : Nat) : Nat :=
  -- bits 12 to 14 are cleared
  let pa := pa ^^^ (pa &&& 7 <<< 12)
  let pa := pa ||| (channelHashCh4 channelIdx pa).toNat <<< 12
  let pa := pa ||| (channelHashCh5 channelIdx pa).toNat <<< 13
  pa ||| (channelHashCh6 channelIdx pa).toNat <<< 14

/-- `struct umc_bank_addr`; every field has 32 bits. -/
structure UmcBankAddr where
  stackId : Nat
  bankGroup : Nat
  bank : Nat
  row : Nat
  column : Nat
  channel : Nat
  subchannel : Nat
  deriving DecidableEq

/-- `channel_reversed`: the channel bits of an address, were `i` the upper bits of its channel. -/
def channelReversed (i socPa : Nat) : Nat :=
  (channelHashCh4 (i <<< 4) socPa).toNat ||| (channelHashCh5 (i <<< 4) socPa).toNat <<< 1 |||
    (channelHashCh6 (i <<< 4) socPa).toNat <<< 2

def channelHashed (socPa : Nat) : Nat := socPa >>> 12 &&& 7

/-- `umc_12_0_soc_pa_to_bank` of `ras_umc_v12_0.c` -/
def socPaToBank (socPa : Nat) : UmcBankAddr where
  stackId := gather sidBits socPa
  bankGroup := 0
  bank := gather bankBits socPa
  row := gather rowBits socPa
  column := gather colBits socPa
  channel := (List.range 8).foldl (fun channelReal i =>
    if channelReversed i socPa = channelHashed socPa then i <<< 4 ||| (socPa >>> 8 &&& 0xf)
    else channelReal) 0
  subchannel := gather pcBits socPa

/-- `umc_12_0_bank_to_soc_pa` of `ras_umc_v12_0.c`; the channel is shifted in 32 bits. -/
def bankToSocPa (bankAddr : UmcBankAddr) : Nat :=
  let tmpPa := scatter sidBits bankAddr.stackId ||| scatter bankBits bankAddr.bank |||
    scatter rowBits bankAddr.row ||| scatter colBits bankAddr.column |||
    scatter chBits bankAddr.channel ||| scatter pcBits bankAddr.subchannel
  let na := tmpPa >>> 15 <<< 8 ||| (tmpPa &&& 0xff)
  -- the blocks of 32 KB and of 256 B, and the offset in the latter
  let tmpPa := na >>> 8 <<< 15 ||| bankAddr.channel <<< 8 % 2 ^ 32 ||| (na &&& 0xff)
  setChannelHash bankAddr.channel tmpPa

/-- `umc_12_0_soc_pa_to_bank` of libgv -/
def libgvSocPaToBank (socPa : Nat) : UmcBankAddr where
  stackId := gather sidBits socPa
  bankGroup := 0
  bank := gather bankBits socPa
  row := gather rowBits socPa
  column := gather colBits socPa
  channel := (List.range 8).foldl (fun channelReal i =>
    if channelReversed i socPa = channelHashed socPa then i <<< 4 ||| (socPa >>> 8 &&& 0xf)
    else channelReal) 0
  subchannel := gather pcBits socPa

/-- `umc_12_0_bank_to_soc_pa` of libgv -/
def libgvBankToSocPa (bankAddr : UmcBankAddr) : Nat :=
  let tmpPa := scatter sidBits bankAddr.stackId ||| scatter bankBits bankAddr.bank |||
    scatter rowBits bankAddr.row ||| scatter colBits bankAddr.column |||
    scatter chBits bankAddr.channel ||| scatter pcBits bankAddr.subchannel
  let na := tmpPa >>> 15 <<< 8 ||| (tmpPa &&& 0xff)
  let tmpPa := na >>> 8 <<< 15 ||| bankAddr.channel <<< 8 % 2 ^ 32 ||| (na &&& 0xff)
  setChannelHash bankAddr.channel tmpPa

/-- The fields are within their widths; a bank group has no bits of its own. -/
structure UmcBankAddr.Within (bankAddr : UmcBankAddr) : Prop where
  stackId : bankAddr.stackId < 2 ^ 2
  bankGroup : bankAddr.bankGroup = 0
  bank : bankAddr.bank < 2 ^ 4
  row : bankAddr.row < 2 ^ 14
  column : bankAddr.column < 2 ^ 5
  channel : bankAddr.channel < 2 ^ 7
  subchannel : bankAddr.subchannel < 2

/-- The upper channel bits of an address, before they were hashed. -/
def channelOriginal (socPa : Nat) : Nat :=
  (channelHashCh6 0 socPa ^^ socPa.testBit 14).toNat +
    2 * (channelHashCh4 0 socPa ^^ socPa.testBit 12).toNat +
    4 * (channelHashCh5 0 socPa ^^ socPa.testBit 13).toNat

section Hash

theorem channelHash_congr (channelIdx pa pa' : Nat)
    (same : ∀ j, 15 ≤ j → pa.testBit j = pa'.testBit j) :
    channelHashCh4 channelIdx pa = channelHashCh4 channelIdx pa' ∧
      channelHashCh5 channelIdx pa = channelHashCh5 channelIdx pa' ∧
      channelHashCh6 channelIdx pa = channelHashCh6 channelIdx pa' := by
  have bits : ∀ j, pa.testBit (j + 15) = pa'.testBit (j + 15) := fun j => same _ (by omega)
  refine ⟨?_, ?_, ?_⟩
  · simp only [channelHashCh4, bits 5, bits 12, bits 19, bits 26]
  · simp only [channelHashCh5, bits 6, bits 13, bits 20, bits 27]
  · simp only [channelHashCh6, bits 4, bits 11, bits 18, bits 25, bits 32]

theorem channelHash_or (channelIdx pa : Nat) (bit : Bool) {position : Nat} (low : position < 15) :
    channelHashCh4 channelIdx (pa ||| bit.toNat <<< position) = channelHashCh4 channelIdx pa ∧
      channelHashCh5 channelIdx (pa ||| bit.toNat <<< position) = channelHashCh5 channelIdx pa ∧
      channelHashCh6 channelIdx (pa ||| bit.toNat <<< position) = channelHashCh6 channelIdx pa := by
  apply channelHash_congr
  intro j high
  rw [Nat.testBit_or, testBit_toNat_shiftLeft, decide_eq_false (by omega), Bool.false_and,
    Bool.or_false]

theorem testBit_seven_high (j : Nat) : (7).testBit (j + 3) = false := by
  apply Nat.testBit_lt_two_pow
  calc 7 < 2 ^ 3 := by decide
    _ ≤ 2 ^ (j + 3) := Nat.pow_le_pow_right (by decide) (Nat.le_add_left 3 j)

theorem testBit_seven_shiftLeft (j : Nat) :
    (7 <<< 12).testBit j = decide (j = 12 ∨ j = 13 ∨ j = 14) := by
  rw [Nat.testBit_shiftLeft]
  by_cases low : 12 ≤ j
  · obtain ⟨k, rfl⟩ := Nat.exists_eq_add_of_le low
    rw [decide_eq_true low, Nat.add_sub_cancel_left, Bool.true_and]
    rcases k with _ | _ | _ | k
    · rfl
    · rfl
    · rfl
    · rw [testBit_seven_high k, decide_eq_false (by omega)]
  · rw [decide_eq_false low, decide_eq_false (by omega), Bool.false_and]

theorem testBit_setChannelHash (channelIdx pa j : Nat) :
    (setChannelHash channelIdx pa).testBit j =
      if j = 12 then channelHashCh4 channelIdx pa
      else if j = 13 then channelHashCh5 channelIdx pa
      else if j = 14 then channelHashCh6 channelIdx pa
      else pa.testBit j := by
  have clear : ∀ j, (pa ^^^ (pa &&& 7 <<< 12)).testBit j =
      (pa.testBit j && !decide (j = 12 ∨ j = 13 ∨ j = 14)) := by
    intro j
    rw [Nat.testBit_xor, Nat.testBit_and, testBit_seven_shiftLeft]
    cases pa.testBit j <;> cases decide (j = 12 ∨ j = 13 ∨ j = 14) <;> rfl
  unfold setChannelHash
  generalize pa ^^^ (pa &&& 7 <<< 12) = cleared at clear
  obtain ⟨four, five, six⟩ := channelHash_congr channelIdx cleared pa
    fun j high => by rw [clear, decide_eq_false (by omega), Bool.not_false, Bool.and_true]
  have five' := (channelHash_or channelIdx cleared (channelHashCh4 channelIdx pa)
    (by decide : 12 < 15)).2
  have six' := (channelHash_or channelIdx (cleared ||| (channelHashCh4 channelIdx pa).toNat <<< 12)
    (channelHashCh5 channelIdx pa) (by decide : 13 < 15)).2.2
  simp only [four, five'.1, five, six', five'.2, six]
  simp only [Nat.testBit_or, testBit_toNat_shiftLeft, clear]
  by_cases ch4 : j = 12
  · simp [ch4]
  · by_cases ch5 : j = 13
    · simp [ch5]
    · by_cases ch6 : j = 14
      · simp [ch6]
      · simp [ch4, ch5, ch6]

theorem channelHashed_eq (socPa : Nat) : channelHashed socPa =
    (socPa.testBit 12).toNat ||| (socPa.testBit 13).toNat <<< 1 |||
      (socPa.testBit 14).toNat <<< 2 := by
  have none_ : (socPa.testBit 12).toNat = (socPa.testBit 12).toNat <<< 0 := rfl
  rw [none_]
  apply Nat.eq_of_testBit_eq
  intro j
  simp only [channelHashed, Nat.testBit_and, Nat.testBit_shiftRight, Nat.testBit_or,
    testBit_toNat_shiftLeft]
  have seven : Nat.testBit 7 1 = true ∧ Nat.testBit 7 2 = true := by decide
  rcases j with _ | _ | _ | j
  · simp
  · simp [seven.1]
  · simp [seven.2]
  · have high : (7).testBit (j + 3) = false := testBit_seven_high j
    simp [high]

theorem channelReversed_iff (socPa : Nat) {i : Nat} (few : i < 8) :
    channelReversed i socPa = channelHashed socPa ↔ i = channelOriginal socPa := by
  have four : channelHashCh4 (i <<< 4) socPa = (i.testBit 1 ^^ channelHashCh4 0 socPa) := by
    simp [channelHashCh4]
  have five : channelHashCh5 (i <<< 4) socPa = (i.testBit 2 ^^ channelHashCh5 0 socPa) := by
    simp [channelHashCh5]
  have six : channelHashCh6 (i <<< 4) socPa = (i.testBit 0 ^^ channelHashCh6 0 socPa) := by
    simp [channelHashCh6]
  unfold channelReversed channelOriginal
  rw [channelHashed_eq, four, five, six]
  generalize channelHashCh4 0 socPa = hash4
  generalize channelHashCh5 0 socPa = hash5
  generalize channelHashCh6 0 socPa = hash6
  generalize socPa.testBit 12 = bit4
  generalize socPa.testBit 13 = bit5
  generalize socPa.testBit 14 = bit6
  interval_cases i <;> revert hash4 hash5 hash6 bit4 bit5 bit6 <;> decide

theorem channelOriginal_lt (socPa : Nat) : channelOriginal socPa < 8 := by
  unfold channelOriginal
  generalize (channelHashCh6 0 socPa ^^ socPa.testBit 14) = bit0
  generalize (channelHashCh4 0 socPa ^^ socPa.testBit 12) = bit1
  generalize (channelHashCh5 0 socPa ^^ socPa.testBit 13) = bit2
  revert bit0 bit1 bit2
  decide

theorem testBit_channelOriginal (socPa : Nat) :
    (channelOriginal socPa).testBit 0 = (channelHashCh6 0 socPa ^^ socPa.testBit 14) ∧
      (channelOriginal socPa).testBit 1 = (channelHashCh4 0 socPa ^^ socPa.testBit 12) ∧
      (channelOriginal socPa).testBit 2 = (channelHashCh5 0 socPa ^^ socPa.testBit 13) := by
  unfold channelOriginal
  generalize (channelHashCh6 0 socPa ^^ socPa.testBit 14) = bit0
  generalize (channelHashCh4 0 socPa ^^ socPa.testBit 12) = bit1
  generalize (channelHashCh5 0 socPa ^^ socPa.testBit 13) = bit2
  revert bit0 bit1 bit2
  decide

theorem channel_eq (socPa : Nat) : (socPaToBank socPa).channel =
    channelOriginal socPa <<< 4 ||| (socPa >>> 8 &&& 0xf) := by
  have loop : (socPaToBank socPa).channel = (List.range 8).foldl (fun channelReal i =>
      if i = channelOriginal socPa then i <<< 4 ||| (socPa >>> 8 &&& 0xf) else channelReal) 0 := by
    apply List.foldl_ext
    intro channelReal i listed
    simp only [channelReversed_iff socPa (List.mem_range.mp listed)]
  rw [loop]
  have few := channelOriginal_lt socPa
  generalize channelOriginal socPa = original at few ⊢
  interval_cases original <;> rfl

theorem testBit_channel (socPa : Nat) {j : Nat} : ((socPaToBank socPa).channel).testBit j =
    if j < 4 then socPa.testBit (j + 8) else (channelOriginal socPa).testBit (j - 4) := by
  have low : socPa >>> 8 &&& 0xf = socPa >>> 8 % 2 ^ 4 := Nat.and_two_pow_sub_one_eq_mod _ 4
  rw [channel_eq, low, Nat.testBit_or, Nat.testBit_shiftLeft, Nat.testBit_mod_two_pow,
    Nat.testBit_shiftRight, Nat.add_comm 8]
  by_cases small : j < 4
  · simp [small, Nat.not_le_of_lt small]
  · simp [small, Nat.le_of_not_lt small]

end Hash

section Address

def unhashed (bankAddr : UmcBankAddr) : Nat :=
  let tmpPa := scatter sidBits bankAddr.stackId ||| scatter bankBits bankAddr.bank |||
    scatter rowBits bankAddr.row ||| scatter colBits bankAddr.column |||
    scatter chBits bankAddr.channel ||| scatter pcBits bankAddr.subchannel
  let na := tmpPa >>> 15 <<< 8 ||| (tmpPa &&& 0xff)
  na >>> 8 <<< 15 ||| bankAddr.channel <<< 8 % 2 ^ 32 ||| (na &&& 0xff)

def UmcBankAddr.fields (bankAddr : UmcBankAddr) : List (List Nat × Nat) :=
  [(sidBits, bankAddr.stackId), (bankBits, bankAddr.bank), (rowBits, bankAddr.row),
    (colBits, bankAddr.column), (chBits, bankAddr.channel), (pcBits, bankAddr.subchannel)]

def fieldBits : List (List Nat) := [sidBits, bankBits, rowBits, colBits, chBits, pcBits]

theorem fields_apart (bankAddr : UmcBankAddr) :
    bankAddr.fields.Pairwise fun field other => field.1.Disjoint other.1 := by
  have apart : fieldBits.Pairwise fun field other => ∀ position ∈ field, position ∉ other := by
    decide
  have fields : bankAddr.fields.map Prod.fst = fieldBits := rfl
  rw [← fields, List.pairwise_map] at apart
  exact apart.imp fun disjoint _ here there => disjoint _ here there

theorem testBit_unhashed {bankAddr : UmcBankAddr} (channel : bankAddr.channel < 2 ^ 7) (j : Nat) :
    (unhashed bankAddr).testBit j =
      if 8 ≤ j ∧ j < 15 then bankAddr.channel.testBit (j - 8)
      else (assemble bankAddr.fields).testBit j := by
  have together : scatter sidBits bankAddr.stackId ||| scatter bankBits bankAddr.bank |||
      scatter rowBits bankAddr.row ||| scatter colBits bankAddr.column |||
      scatter chBits bankAddr.channel ||| scatter pcBits bankAddr.subchannel =
        assemble bankAddr.fields := by
    simp [assemble, UmcBankAddr.fields, Nat.or_assoc]
  have low : ∀ word : Nat, word &&& 0xff = word % 2 ^ 8 := fun word =>
    Nat.and_two_pow_sub_one_eq_mod word 8
  have short : bankAddr.channel <<< 8 % 2 ^ 32 = bankAddr.channel <<< 8 := by
    rw [Nat.shiftLeft_eq]
    exact Nat.mod_eq_of_lt (by omega)
  have high : ∀ i, 7 ≤ i → bankAddr.channel.testBit i = false := fun i above =>
    Nat.testBit_lt_two_pow
      (Nat.lt_of_lt_of_le channel (Nat.pow_le_pow_right (by decide) above))
  unfold unhashed
  simp only [together, low, short]
  generalize assemble bankAddr.fields = word
  simp only [Nat.testBit_or, Nat.testBit_shiftLeft, Nat.testBit_shiftRight, Nat.testBit_mod_two_pow]
  rcases Nat.lt_or_ge j 8 with offset | block
  · have small : ¬ 15 ≤ j ∧ ¬ 8 ≤ j := by omega
    simp [offset, small.1, small.2]
  · rcases Nat.lt_or_ge j 15 with middle | large
    · simp [block, middle, Nat.not_le_of_lt middle, Nat.not_lt_of_le block]
    · have place : 8 ≤ 8 + (j - 15) := by omega
      simp [block, large, Nat.not_lt_of_le block, Nat.not_lt_of_le large, place,
        high (j - 8) (by omega)]

theorem bankToSocPa_eq (bankAddr : UmcBankAddr) :
    bankToSocPa bankAddr = setChannelHash bankAddr.channel (unhashed bankAddr) := rfl

theorem testBit_bankToSocPa {bankAddr : UmcBankAddr} (channel : bankAddr.channel < 2 ^ 7) {j : Nat}
    (outside : j < 8 ∨ 15 ≤ j) :
    (bankToSocPa bankAddr).testBit j = (assemble bankAddr.fields).testBit j := by
  rw [bankToSocPa_eq, testBit_setChannelHash, if_neg (by omega), if_neg (by omega),
    if_neg (by omega), testBit_unhashed channel, if_neg (by omega)]

theorem gather_bankToSocPa {bankAddr : UmcBankAddr} (channel : bankAddr.channel < 2 ^ 7)
    (positions : List Nat) (value : Nat) (listed : (positions, value) ∈ bankAddr.fields)
    (nodup : positions.Nodup) (small : value < 2 ^ positions.length)
    (outside : ∀ position ∈ positions, position < 8 ∨ 15 ≤ position) :
    gather positions (bankToSocPa bankAddr) = value := by
  rw [gather_congr fun position inside => testBit_bankToSocPa channel (outside position inside)]
  exact gather_assemble (fields_apart bankAddr) listed nodup small

theorem channelHash_idx (channelIdx pa : Nat) :
    channelHashCh4 channelIdx pa = (channelIdx.testBit 5 ^^ channelHashCh4 0 pa) ∧
      channelHashCh5 channelIdx pa = (channelIdx.testBit 6 ^^ channelHashCh5 0 pa) ∧
      channelHashCh6 channelIdx pa = (channelIdx.testBit 4 ^^ channelHashCh6 0 pa) := by
  simp [channelHashCh4, channelHashCh5, channelHashCh6]

theorem channelHash_bankToSocPa (bankAddr : UmcBankAddr) :
    channelHashCh4 0 (bankToSocPa bankAddr) = channelHashCh4 0 (unhashed bankAddr) ∧
      channelHashCh5 0 (bankToSocPa bankAddr) = channelHashCh5 0 (unhashed bankAddr) ∧
      channelHashCh6 0 (bankToSocPa bankAddr) = channelHashCh6 0 (unhashed bankAddr) := by
  apply channelHash_congr
  intro j high
  rw [bankToSocPa_eq, testBit_setChannelHash, if_neg (by omega), if_neg (by omega),
    if_neg (by omega)]

theorem channel_bankToSocPa {bankAddr : UmcBankAddr} (small : bankAddr.channel < 2 ^ 7) :
    (socPaToBank (bankToSocPa bankAddr)).channel = bankAddr.channel := by
  apply Nat.eq_of_testBit_eq
  intro j
  rw [testBit_channel]
  by_cases low : j < 4
  · rw [if_pos low, bankToSocPa_eq, testBit_setChannelHash, if_neg (by omega), if_neg (by omega),
      if_neg (by omega), testBit_unhashed small, if_pos (by omega), Nat.add_sub_cancel]
  · rw [if_neg low]
    obtain ⟨bit0, bit1, bit2⟩ := testBit_channelOriginal (bankToSocPa bankAddr)
    obtain ⟨hash4, hash5, hash6⟩ := channelHash_bankToSocPa bankAddr
    obtain ⟨four, five, six⟩ := channelHash_idx bankAddr.channel (unhashed bankAddr)
    have ch4 : (bankToSocPa bankAddr).testBit 12 =
        channelHashCh4 bankAddr.channel (unhashed bankAddr) := by
      rw [bankToSocPa_eq, testBit_setChannelHash, if_pos rfl]
    have ch5 : (bankToSocPa bankAddr).testBit 13 =
        channelHashCh5 bankAddr.channel (unhashed bankAddr) := by
      rw [bankToSocPa_eq, testBit_setChannelHash, if_neg (by decide), if_pos rfl]
    have ch6 : (bankToSocPa bankAddr).testBit 14 =
        channelHashCh6 bankAddr.channel (unhashed bankAddr) := by
      rw [bankToSocPa_eq, testBit_setChannelHash, if_neg (by decide), if_neg (by decide),
        if_pos rfl]
    rw [hash6, ch6, six] at bit0
    rw [hash4, ch4, four] at bit1
    rw [hash5, ch5, five] at bit2
    obtain ⟨k, rfl⟩ := Nat.exists_eq_add_of_le (Nat.le_of_not_lt low)
    rw [Nat.add_sub_cancel_left]
    rcases k with _ | _ | _ | k
    · rw [bit0]
      cases bankAddr.channel.testBit 4 <;> simp
    · rw [bit1]
      cases bankAddr.channel.testBit 5 <;> simp
    · rw [bit2]
      cases bankAddr.channel.testBit 6 <;> simp
    · have short : 2 ^ 3 ≤ 2 ^ (k + 3) := Nat.pow_le_pow_right (by decide) (Nat.le_add_left 3 k)
      have short' : 2 ^ 7 ≤ 2 ^ (4 + (k + 3)) := Nat.pow_le_pow_right (by decide) (by omega)
      rw [Nat.testBit_lt_two_pow (Nat.lt_of_lt_of_le (channelOriginal_lt _) short),
        Nat.testBit_lt_two_pow (Nat.lt_of_lt_of_le small short')]

theorem socPaToBank_bankToSocPa {bankAddr : UmcBankAddr} (within : bankAddr.Within) :
    socPaToBank (bankToSocPa bankAddr) = bankAddr := by
  have stackId := gather_bankToSocPa within.channel sidBits bankAddr.stackId
    (by simp [UmcBankAddr.fields]) (by decide) within.stackId (by decide)
  have bank := gather_bankToSocPa within.channel bankBits bankAddr.bank
    (by simp [UmcBankAddr.fields]) (by decide) within.bank (by decide)
  have row := gather_bankToSocPa within.channel rowBits bankAddr.row
    (by simp [UmcBankAddr.fields]) (by decide) within.row (by decide)
  have column := gather_bankToSocPa within.channel colBits bankAddr.column
    (by simp [UmcBankAddr.fields]) (by decide) within.column (by decide)
  have subchannel := gather_bankToSocPa within.channel pcBits bankAddr.subchannel
    (by simp [UmcBankAddr.fields]) (by decide) within.subchannel (by decide)
  have channel := channel_bankToSocPa within.channel
  have bankGroup := within.bankGroup
  have eta : ∀ read : UmcBankAddr, read.stackId = bankAddr.stackId →
      read.bankGroup = bankAddr.bankGroup → read.bank = bankAddr.bank →
      read.row = bankAddr.row → read.column = bankAddr.column →
      read.channel = bankAddr.channel → read.subchannel = bankAddr.subchannel →
      read = bankAddr := by
    rintro ⟨⟩ rfl rfl rfl rfl rfl rfl rfl
    rfl
  exact eta _ stackId bankGroup.symm bank row column channel subchannel

theorem socPaToBank_within (socPa : Nat) : (socPaToBank socPa).Within := by
  refine ⟨gather_lt _ _, rfl, gather_lt _ _, gather_lt _ _, gather_lt _ _, ?_, gather_lt _ _⟩
  apply Nat.lt_pow_two_of_testBit
  intro j high
  rw [testBit_channel, if_neg (by omega)]
  have short : 2 ^ 3 ≤ 2 ^ (j - 4) := Nat.pow_le_pow_right (by decide) (by omega)
  exact Nat.testBit_lt_two_pow (Nat.lt_of_lt_of_le (channelOriginal_lt socPa) short)

theorem testBit_fields_socPaToBank (socPa : Nat) {j : Nat} (outside : j < 8 ∨ 15 ≤ j) :
    (assemble (socPaToBank socPa).fields).testBit j =
      (decide (5 ≤ j ∧ j < 38) && socPa.testBit j) := by
  have covered : ∀ j < 38, 5 ≤ j → (j < 8 ∨ 15 ≤ j) →
      ∃ field ∈ [sidBits, bankBits, rowBits, colBits, pcBits], j ∈ field := by decide
  have within : ∀ field ∈ fieldBits, ∀ position ∈ field, 5 ≤ position ∧ position < 38 := by
    decide
  have fields : (socPaToBank socPa).fields.map Prod.fst = fieldBits := rfl
  by_cases inside : 5 ≤ j ∧ j < 38
  · obtain ⟨field, listed, there⟩ := covered j inside.2 inside.1 outside
    have given : (field, gather field socPa) ∈ (socPaToBank socPa).fields := by
      simp only [List.mem_cons, List.not_mem_nil, or_false] at listed
      rcases listed with rfl | rfl | rfl | rfl | rfl <;> simp [UmcBankAddr.fields, socPaToBank]
    have nodup : field.Nodup := by
      simp only [List.mem_cons, List.not_mem_nil, or_false] at listed
      rcases listed with rfl | rfl | rfl | rfl | rfl <;> decide
    rw [testBit_assemble_of_mem (fields_apart _) given there, testBit_scatter_gather nodup,
      decide_eq_true there, decide_eq_true inside]
  · rw [decide_eq_false inside, Bool.false_and, Bool.eq_false_iff]
    intro bit
    obtain ⟨field, listed, bit⟩ := (testBit_assemble _ _).mp bit
    have there : j ∈ field.1 := by
      by_contra missing
      rw [testBit_scatter_of_not_mem missing] at bit
      cases bit
    exact inside (within field.1 (fields ▸ List.mem_map_of_mem listed) j there)

theorem testBit_bankToSocPa_socPaToBank (socPa : Nat) {j : Nat} (outside : j < 8 ∨ 15 ≤ j) :
    (bankToSocPa (socPaToBank socPa)).testBit j =
      (decide (5 ≤ j ∧ j < 38) && socPa.testBit j) := by
  rw [testBit_bankToSocPa (socPaToBank_within socPa).channel outside,
    testBit_fields_socPaToBank socPa outside]

theorem bankToSocPa_socPaToBank_lt (socPa : Nat) : bankToSocPa (socPaToBank socPa) < 2 ^ 38 := by
  apply Nat.lt_pow_two_of_testBit
  intro j above
  rw [testBit_bankToSocPa_socPaToBank socPa (.inr (by omega)), decide_eq_false (by omega),
    Bool.false_and]

theorem testBit_clear (socPa j : Nat) :
    (socPa >>> 5 <<< 5).testBit j = (decide (5 ≤ j) && socPa.testBit j) := by
  rw [Nat.testBit_shiftLeft, Nat.testBit_shiftRight]
  by_cases above : 5 ≤ j
  · rw [Nat.add_sub_cancel' above]
  · simp [above]

theorem bankToSocPa_socPaToBank {socPa : Nat} (small : socPa < 2 ^ 38) :
    bankToSocPa (socPaToBank socPa) = socPa >>> 5 <<< 5 := by
  have high : ∀ j, 38 ≤ j → socPa.testBit j = false := fun j above =>
    Nat.testBit_lt_two_pow (Nat.lt_of_lt_of_le small (Nat.pow_le_pow_right (by decide) above))
  have channel := (socPaToBank_within socPa).channel
  -- the hash is that of the address
  obtain ⟨hash4, hash5, hash6⟩ := channelHash_congr 0
      (unhashed (socPaToBank socPa)) socPa fun j above => by
    rw [testBit_unhashed channel, if_neg (by omega),
      testBit_fields_socPaToBank socPa (.inr above)]
    by_cases inside : j < 38
    · rw [decide_eq_true ⟨by omega, inside⟩, Bool.true_and]
    · rw [high j (by omega), Bool.and_false]
  obtain ⟨four, five, six⟩ := channelHash_idx (socPaToBank socPa).channel
    (unhashed (socPaToBank socPa))
  obtain ⟨bit0, bit1, bit2⟩ := testBit_channelOriginal socPa
  apply Nat.eq_of_testBit_eq
  intro j
  rw [testBit_clear]
  rcases Nat.lt_or_ge j 8 with low | above
  · rw [testBit_bankToSocPa_socPaToBank socPa (.inl low)]
    simp [Nat.lt_trans low (by decide : 8 < 38)]
  · rcases Nat.lt_or_ge j 15 with middle | above'
    · rw [hash4, testBit_channel, if_neg (by decide), bit1] at four
      rw [hash5, testBit_channel, if_neg (by decide), bit2] at five
      rw [hash6, testBit_channel, if_neg (by decide), bit0] at six
      have cancel : ∀ hash bit : Bool, ((hash ^^ bit) ^^ hash) = bit := by decide
      rw [cancel] at four five six
      have inner : (unhashed (socPaToBank socPa)).testBit j =
          (socPaToBank socPa).channel.testBit (j - 8) := by
        rw [testBit_unhashed channel, if_pos ⟨above, middle⟩]
      rw [bankToSocPa_eq, testBit_setChannelHash, four, five, six, inner, testBit_channel,
        decide_eq_true (by omega : 5 ≤ j), Bool.true_and]
      by_cases ch4 : j = 12
      · rw [if_pos ch4, ch4]
      · by_cases ch5 : j = 13
        · rw [if_neg ch4, if_pos ch5, ch5]
        · by_cases ch6 : j = 14
          · rw [if_neg ch4, if_neg ch5, if_pos ch6, ch6]
          · rw [if_neg ch4, if_neg ch5, if_neg ch6, if_pos (by omega), Nat.sub_add_cancel above]
    · rw [testBit_bankToSocPa_socPaToBank socPa (.inr above')]
      by_cases inside : j < 38
      · simp [inside]
      · simp [high j (by omega)]

end Address

/-- Addresses and bank addresses are each other's inverse exactly where they should be: on the 38
bits that the fields have, but for those below the columns, and on fields within their widths. One
candidate inverts the hash, and both drivers compute the same. -/
theorem soc_pa_bank_inverse (socPa : Nat) (bankAddr : UmcBankAddr) :
    (bankToSocPa (socPaToBank socPa) = socPa >>> 5 <<< 5 ↔ socPa < 2 ^ 38) ∧
      (socPaToBank (bankToSocPa bankAddr) = bankAddr ↔ bankAddr.Within) ∧
      (∃! i, i < 8 ∧ channelReversed i socPa = channelHashed socPa) ∧
      libgvSocPaToBank = socPaToBank ∧ libgvBankToSocPa = bankToSocPa := by
  refine ⟨⟨?_, bankToSocPa_socPaToBank⟩, ⟨?_, socPaToBank_bankToSocPa⟩, ?_, rfl, rfl⟩
  · intro same
    have below := bankToSocPa_socPaToBank_lt socPa
    rw [same, Nat.shiftLeft_eq, Nat.shiftRight_eq_div_pow] at below
    omega
  · intro same
    rw [← same]
    exact socPaToBank_within _
  · refine ⟨channelOriginal socPa, ⟨channelOriginal_lt socPa, ?_⟩, ?_⟩
    · exact (channelReversed_iff socPa (channelOriginal_lt socPa)).mpr rfl
    · rintro i ⟨few, candidate⟩
      exact (channelReversed_iff socPa few).mp candidate

def socketLfbSizeHbm3e : Nat := 0x4800000000

/-- With 288 GB there are addresses whose highest bit is in no field. -/
theorem high_address_lost : ¬ ∀ socPa < socketLfbSizeHbm3e,
    bankToSocPa (socPaToBank socPa) = socPa >>> 5 <<< 5 := by
  intro all
  have same := all (2 ^ 38) (by decide)
  have below := bankToSocPa_socPaToBank_lt (2 ^ 38)
  rw [same] at below
  revert below
  decide

end MxGpu.UmcV12
