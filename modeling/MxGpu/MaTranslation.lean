import MxGpu.MaToPa

/- What the translation keeps of an error address: the hash of the bank can be undone, and every bit
of the normalized address has its place in the physical one. -/
namespace MxGpu.UmcV12

open BitFields

section Bank

variable {a b : Nat}

theorem testBit_bankHash (rowMask errAddr j : Nat) : (bankHash rowMask errAddr).testBit j =
    if j = 0 then bankBit errAddr rowMask 6 0 0x11111
    else if j = 1 then bankBit errAddr rowMask 7 0 0x22222
    else if j = 2 then bankBit errAddr rowMask 8 0x800 0x4444
    else if j = 3 then bankBit errAddr rowMask 9 0x1000 0x8888
    else false := by
  have first (bit : Bool) : bit.toNat = bit.toNat <<< 0 := rfl
  rw [bankHash, first (bankBit errAddr rowMask 6 0 0x11111)]
  simp only [Nat.testBit_or, testBit_toNat_shiftLeft]
  rcases j with _ | _ | _ | _ | j
  · simp
  · simp
  · simp
  · simp
  · simp

theorem testBit_bankMask (j : Nat) : (0x3c0).testBit j = decide (6 ≤ j ∧ j < 10) := by
  have shifted : (0x3c0 : Nat) = (2 ^ 4 - 1) <<< 6 := rfl
  rw [shifted, Nat.testBit_shiftLeft, Nat.testBit_two_pow_sub_one]
  by_cases high : 6 ≤ j
  · simp [high]
    omega
  · simp [high]

theorem testBit_setBank (rowMask errAddr j : Nat) :
    (setBank errAddr (bankHash rowMask errAddr)).testBit j =
      if 6 ≤ j ∧ j < 10 then (bankHash rowMask errAddr).testBit (j - 6)
      else errAddr.testBit j := by
  simp only [setBank, Nat.testBit_or, Nat.testBit_xor, Nat.testBit_and, testBit_bankMask,
    Nat.testBit_shiftLeft]
  by_cases inside : 6 ≤ j ∧ j < 10
  · simp [inside]
  · have none_ : (decide (6 ≤ j) && (bankHash rowMask errAddr).testBit (j - 6)) = false := by
      rcases Nat.lt_or_ge j 6 with below | above
      · simp [Nat.not_le_of_lt below]
      · rw [testBit_bankHash]
        have beyond : j - 6 ≠ 0 ∧ j - 6 ≠ 1 ∧ j - 6 ≠ 2 ∧ j - 6 ≠ 3 := by omega
        simp [beyond]
    rw [none_]
    simp [inside]

theorem testBit_of_bankBit {rowMask bit colXor rowXor : Nat} (rows : a >>> 10 = b >>> 10)
    (cols : a >>> 1 &&& 0x1f = b >>> 1 &&& 0x1f)
    (same : bankBit a rowMask bit colXor rowXor = bankBit b rowMask bit colXor rowXor) :
    a.testBit bit = b.testBit bit := by
  unfold bankBit at same
  rw [rows, cols] at same
  exact Bool.xor_left_inj.mp same

theorem setBank_injective (rowMask : Nat)
    (same : setBank a (bankHash rowMask a) = setBank b (bankHash rowMask b)) : a = b := by
  have bits (j : Nat) := congrArg (Nat.testBit · j) same
  simp only [testBit_setBank] at bits
  have others (j : Nat) (outside : ¬ (6 ≤ j ∧ j < 10)) : a.testBit j = b.testBit j := by
    simpa only [if_neg outside] using bits j
  have rows : a >>> 10 = b >>> 10 := by
    apply Nat.eq_of_testBit_eq
    intro j
    rw [Nat.testBit_shiftRight, Nat.testBit_shiftRight]
    exact others _ (by omega)
  have cols : a >>> 1 &&& 0x1f = b >>> 1 &&& 0x1f := by
    have low (word : Nat) : word &&& 0x1f = word % 2 ^ 5 := Nat.and_two_pow_sub_one_eq_mod word 5
    rw [low, low]
    apply Nat.eq_of_testBit_eq
    intro j
    simp only [Nat.testBit_mod_two_pow, Nat.testBit_shiftRight]
    by_cases small : j < 5
    · rw [others (1 + j) (by omega)]
    · simp [small]
  apply Nat.eq_of_testBit_eq
  intro j
  by_cases inside : 6 ≤ j ∧ j < 10
  · have hashed := bits j
    simp only [if_pos inside, testBit_bankHash] at hashed
    obtain ⟨low, high⟩ := inside
    have which : j = 6 ∨ j = 7 ∨ j = 8 ∨ j = 9 := by omega
    rcases which with six | seven | eight | nine
    · subst six
      exact testBit_of_bankBit rows cols hashed
    · subst seven
      exact testBit_of_bankBit rows cols hashed
    · subst eight
      exact testBit_of_bankBit rows cols hashed
    · subst nine
      exact testBit_of_bankBit rows cols hashed
  · exact others j inside

end Bank

section Place

variable {lfbSize shift naNps channelIndex socketId : Nat}

theorem testBit_unhashedPa (naNps shift : Nat) (small : channelIndex < 2 ^ 7) (j : Nat) :
    let na := naNps >>> shift <<< 8 ||| (naNps &&& 0xff)
    (na >>> 8 <<< 15 ||| channelIndex <<< 8 ||| (na &&& 0xff)).testBit j =
      if j < 8 then naNps.testBit j
      else if j < 15 then channelIndex.testBit (j - 8)
      else naNps.testBit (shift + (j - 15)) := by
  have low (word : Nat) : word &&& 0xff = word % 2 ^ 8 := Nat.and_two_pow_sub_one_eq_mod word 8
  have few (i : Nat) (above : 7 ≤ i) : channelIndex.testBit i = false :=
    Nat.testBit_lt_two_pow (Nat.lt_of_lt_of_le small (Nat.pow_le_pow_right (by decide) above))
  simp only [low, Nat.testBit_or, Nat.testBit_shiftLeft, Nat.testBit_shiftRight,
    Nat.testBit_mod_two_pow]
  rcases Nat.lt_or_ge j 8 with offset | block
  · have small' : ¬ 15 ≤ j ∧ ¬ 8 ≤ j := by omega
    simp [offset, small'.1, small'.2]
  · rcases Nat.lt_or_ge j 15 with middle | large
    · simp [block, middle, Nat.not_le_of_lt middle, Nat.not_lt_of_le block]
    · have place : 8 ≤ 8 + (j - 15) := by omega
      simp [block, large, Nat.not_lt_of_le block, Nat.not_lt_of_le large, place,
        few (j - 8) (by omega)]

theorem setChannelHash_sub {pa base : Nat} (granular : 2 ^ 15 ∣ base) (channelIdx j : Nat)
    (kept : j < 12 ∨ 15 ≤ j) :
    (setChannelHash channelIdx (pa + base) - base).testBit j = pa.testBit j := by
  obtain ⟨blocks, rfl⟩ := granular
  have above : setChannelHash channelIdx (pa + 2 ^ 15 * blocks) / 2 ^ 15 =
      (pa + 2 ^ 15 * blocks) / 2 ^ 15 := by
    apply Nat.eq_of_testBit_eq
    intro i
    have beyond : i + 15 ≠ 12 ∧ i + 15 ≠ 13 ∧ i + 15 ≠ 14 := by omega
    rw [Nat.testBit_div_two_pow, Nat.testBit_div_two_pow, testBit_setChannelHash,
      if_neg beyond.1, if_neg beyond.2.1, if_neg beyond.2.2]
  have split : (pa + 2 ^ 15 * blocks) / 2 ^ 15 = pa / 2 ^ 15 + blocks :=
    Nat.add_mul_div_left pa blocks (by decide)
  rcases kept with low | high
  · have rest : (setChannelHash channelIdx (pa + 2 ^ 15 * blocks) - 2 ^ 15 * blocks) % 2 ^ 15 =
        setChannelHash channelIdx (pa + 2 ^ 15 * blocks) % 2 ^ 15 := by omega
    have apart : j ≠ 12 ∧ j ≠ 13 ∧ j ≠ 14 := by omega
    have inside : j < 15 := by omega
    have word (x : Nat) : x.testBit j = (x % 2 ^ 15).testBit j := by
      rw [Nat.testBit_mod_two_pow, decide_eq_true inside, Bool.true_and]
    have same : (pa + 2 ^ 15 * blocks) % 2 ^ 15 = pa % 2 ^ 15 := Nat.add_mul_mod_self_left ..
    calc (setChannelHash channelIdx (pa + 2 ^ 15 * blocks) - 2 ^ 15 * blocks).testBit j
        = (setChannelHash channelIdx (pa + 2 ^ 15 * blocks)).testBit j := by
          rw [word, rest, ← word]
      _ = (pa + 2 ^ 15 * blocks).testBit j := by
          rw [testBit_setChannelHash, if_neg apart.1, if_neg apart.2.1, if_neg apart.2.2]
      _ = pa.testBit j := by rw [word, same, ← word]
  · obtain ⟨i, rfl⟩ := Nat.exists_eq_add_of_le high
    have quotient : (setChannelHash channelIdx (pa + 2 ^ 15 * blocks) - 2 ^ 15 * blocks) / 2 ^ 15 =
        pa / 2 ^ 15 := by omega
    have word (x : Nat) : x.testBit (15 + i) = (x / 2 ^ 15).testBit i := by
      rw [Nat.testBit_div_two_pow, Nat.add_comm]
    rw [word, quotient, ← word]

theorem testBit_hashedPa (naNps shift socketId : Nat) (small : channelIndex < 2 ^ 7)
    (granular : 2 ^ 15 ∣ lfbSize) :
    (∀ j < 8, (hashedPa lfbSize shift naNps channelIndex socketId).testBit j =
        naNps.testBit j) ∧
      ∀ j, (hashedPa lfbSize shift naNps channelIndex socketId).testBit (15 + j) =
        naNps.testBit (shift + j) := by
  have base : 2 ^ 15 ∣ socketId * lfbSize := Dvd.dvd.mul_left granular socketId
  constructor
  · intro j low
    have unhashed := testBit_unhashedPa naNps shift small j
    dsimp only at unhashed
    unfold hashedPa
    dsimp only
    rw [setChannelHash_sub base channelIndex j (by omega), unhashed, if_pos low]
  · intro j
    have unhashed := testBit_unhashedPa naNps shift small (15 + j)
    dsimp only at unhashed
    unfold hashedPa
    dsimp only
    rw [setChannelHash_sub base channelIndex (15 + j) (by omega), unhashed, if_neg (by omega),
      if_neg (by omega), Nat.add_sub_cancel_left]

end Place

section Modes

variable {lfbSize nps socPa socPa' naNps naNps' channelIndex nodeInst : Nat}

theorem testBit_putBits (socPa naNps naMask shift j : Nat) :
    (putBits socPa (naMask <<< shift) naNps naMask shift).testBit j =
      if (naMask <<< shift).testBit j then naNps.testBit (j - shift) else socPa.testBit j := by
  simp only [putBits, Nat.testBit_or, Nat.testBit_xor, Nat.testBit_and, Nat.testBit_shiftLeft]
  cases decide (shift ≤ j) <;> cases naMask.testBit (j - shift) <;> cases socPa.testBit j <;> simp

theorem testBit_naMask (count j : Nat) :
    ((2 ^ count - 1) <<< 8).testBit j = decide (8 ≤ j ∧ j < 8 + count) := by
  rw [Nat.testBit_shiftLeft, Nat.testBit_two_pow_sub_one]
  by_cases high : 8 ≤ j
  · simp [high]
    omega
  · simp [high]

/-- An address whose bits below a block, in the channel and above it are those of a normalized
one. -/
structure Carries (socPa naNps count shift : Nat) : Prop where
  low : ∀ j < 8, socPa.testBit j = naNps.testBit j
  channel : ∀ j < count, socPa.testBit (8 + shift + j) = naNps.testBit (8 + j)
  high : ∀ j, socPa.testBit (15 + j) = naNps.testBit (8 + count + j)

theorem Carries.eq {count shift : Nat} (carries : Carries socPa naNps count shift)
    (carries' : Carries socPa naNps' count shift) : naNps = naNps' := by
  apply Nat.eq_of_testBit_eq
  intro i
  rcases Nat.lt_or_ge i 8 with low | above
  · rw [← carries.low i low, carries'.low i low]
  · obtain ⟨j, rfl⟩ := Nat.exists_eq_add_of_le above
    rcases Nat.lt_or_ge j count with channel | high
    · rw [← carries.channel j channel, carries'.channel j channel]
    · obtain ⟨k, rfl⟩ := Nat.exists_eq_add_of_le high
      rw [← Nat.add_assoc, ← carries.high k, carries'.high k]

theorem carries_putBits (count shift : Nat) (inside : 8 + shift + count ≤ 15)
    (low : ∀ j < 8, socPa.testBit j = naNps.testBit j)
    (high : ∀ j, socPa.testBit (15 + j) = naNps.testBit (8 + count + j)) :
    Carries (putBits socPa ((2 ^ count - 1) <<< 8 <<< shift) naNps ((2 ^ count - 1) <<< 8) shift)
      naNps count shift := by
  have mask (j : Nat) : ((2 ^ count - 1) <<< 8 <<< shift).testBit j =
      decide (8 + shift ≤ j ∧ j < 8 + shift + count) := by
    rw [Nat.testBit_shiftLeft, testBit_naMask]
    by_cases above : shift ≤ j
    · rw [decide_eq_true above, Bool.true_and]
      exact decide_eq_decide.mpr (by omega)
    · rw [decide_eq_false above, Bool.false_and]
      exact (decide_eq_false (by omega)).symm
  refine ⟨?_, ?_, ?_⟩
  · intro j small
    have outside : ¬ (8 + shift ≤ j ∧ j < 8 + shift + count) := by omega
    rw [testBit_putBits, mask, decide_eq_false outside, if_neg Bool.false_ne_true, low j small]
  · intro j small
    have here : 8 + shift ≤ 8 + shift + j ∧ 8 + shift + j < 8 + shift + count := by omega
    have place : 8 + shift + j - shift = 8 + j := by omega
    rw [testBit_putBits, mask, decide_eq_true here, if_pos rfl, place]
  · intro j
    have outside : ¬ (8 + shift ≤ 15 + j ∧ 15 + j < 8 + shift + count) := by omega
    rw [testBit_putBits, mask, decide_eq_false outside, if_neg Bool.false_ne_true, high j]

theorem naShift_eq {shift : Nat} (known : naShift nps = some shift) :
    nps = 1 ∧ shift = 8 ∨ nps = 2 ∧ shift = 9 ∨ nps = 4 ∧ shift = 10 ∨ nps = 8 ∧ shift = 11 := by
  unfold naShift at known
  grind

theorem sectionPa_injective {shift : Nat} (known : naShift nps = some shift)
    (low : ∀ j < 8, socPa.testBit j = naNps.testBit j)
    (high : ∀ j, socPa.testBit (15 + j) = naNps.testBit (shift + j))
    (low' : ∀ j < 8, socPa'.testBit j = naNps'.testBit j)
    (high' : ∀ j, socPa'.testBit (15 + j) = naNps'.testBit (shift + j))
    (same : sectionPa lfbSize nps socPa naNps channelIndex nodeInst =
      sectionPa lfbSize nps socPa' naNps' channelIndex nodeInst) : naNps = naNps' := by
  rcases naShift_eq known with ⟨mode, eight⟩ | ⟨mode, nine⟩ | ⟨mode, ten⟩ | ⟨mode, eleven⟩
  · subst mode eight
    have words : socPa = socPa' := same
    have carries : Carries socPa naNps 0 0 :=
      ⟨low, fun j few => absurd few (Nat.not_lt_zero j), high⟩
    have carries' : Carries socPa naNps' 0 0 :=
      ⟨words ▸ low', fun j few => absurd few (Nat.not_lt_zero j), words ▸ high'⟩
    exact carries.eq carries'
  · subst mode nine
    have words : putBits socPa (0x1 <<< 13) naNps 0x100 5 =
        putBits socPa' (0x1 <<< 13) naNps' 0x100 5 := Nat.add_right_cancel same
    have carries := carries_putBits 1 5 (by decide) low high
    have carries' := carries_putBits 1 5 (by decide) low' high'
    exact carries.eq (words ▸ carries')
  · subst mode ten
    have words : putBits socPa (0x3 <<< 12) naNps 0x300 4 =
        putBits socPa' (0x3 <<< 12) naNps' 0x300 4 := Nat.add_right_cancel same
    have carries := carries_putBits 2 4 (by decide) low high
    have carries' := carries_putBits 2 4 (by decide) low' high'
    exact carries.eq (words ▸ carries')
  · subst mode eleven
    have words : putBits socPa (0x7 <<< 12) naNps 0x700 4 =
        putBits socPa' (0x7 <<< 12) naNps' 0x700 4 := Nat.add_right_cancel same
    have carries := carries_putBits 3 4 (by decide) low high
    have carries' := carries_putBits 3 4 (by decide) low' high'
    exact carries.eq (words ▸ carries')

theorem putBits_div (count shift : Nat) (inside : 8 + shift + count ≤ 15) (socPa naNps : Nat) :
    putBits socPa ((2 ^ count - 1) <<< 8 <<< shift) naNps ((2 ^ count - 1) <<< 8) shift / 2 ^ 15 =
      socPa / 2 ^ 15 := by
  apply Nat.eq_of_testBit_eq
  intro j
  have outside : ¬ (8 ≤ j + 15 - shift ∧ j + 15 - shift < 8 + count) := by omega
  rw [Nat.testBit_div_two_pow, Nat.testBit_div_two_pow, testBit_putBits, Nat.testBit_shiftLeft,
    testBit_naMask, decide_eq_false outside, Bool.and_false, if_neg Bool.false_ne_true]

theorem hashedPa_div {shift socketId : Nat} (small : channelIndex < 2 ^ 7)
    (granular : 2 ^ 15 ∣ lfbSize) :
    hashedPa lfbSize shift naNps channelIndex socketId / 2 ^ 15 = naNps >>> shift := by
  apply Nat.eq_of_testBit_eq
  intro j
  rw [Nat.testBit_div_two_pow, Nat.add_comm, (testBit_hashedPa _ _ _ small granular).2,
    Nat.testBit_shiftRight]

theorem sectionPa_eight : sectionPa socketLfbSize 8 socPa naNps channelIndex nodeInst =
    putBits socPa (0x7 <<< 12) naNps 0x700 4 +
      (nodeInst * (2 * (3 * 2 ^ 33)) + channelIndex / 16 * (3 * 2 ^ 33)) := by
  have quarter : socketLfbSize >>> 2 = 2 * (3 * 2 ^ 33) := rfl
  have eighth : socketLfbSize >>> 3 = 3 * 2 ^ 33 := rfl
  rw [sectionPa, if_neg (by decide), if_neg (by decide), if_pos rfl, quarter, eighth,
    Nat.shiftRight_eq_div_pow]

theorem sectionPa_lt {shift : Nat} (known : naShift nps = some shift) (stack : naNps < 3 * 2 ^ 29)
    (blocks : socPa / 2 ^ 15 = naNps >>> shift) (node : nodeInst < 4)
    (channel : channelIndex / 32 = nodeInst) (first : nps = 8 → nodeInst < 2) :
    sectionPa socketLfbSize nps socPa naNps channelIndex nodeInst < socketLfbSize := by
  have size : socketLfbSize = 8 * (3 * 2 ^ 33) := rfl
  rw [Nat.shiftRight_eq_div_pow] at blocks
  rcases naShift_eq known with ⟨mode, eight⟩ | ⟨mode, nine⟩ | ⟨mode, ten⟩ | ⟨mode, eleven⟩
  · subst mode eight
    have whole : sectionPa socketLfbSize 1 socPa naNps channelIndex nodeInst = socPa := rfl
    omega
  · subst mode nine
    have half : sectionPa socketLfbSize 2 socPa naNps channelIndex nodeInst =
        putBits socPa (0x1 <<< 13) naNps 0x100 5 + nodeInst / 2 * (4 * (3 * 2 ^ 33)) := rfl
    have inside := putBits_div 1 5 (by decide) socPa naNps
    rw [half]
    change putBits socPa (0x1 <<< 13) naNps 0x100 5 / 2 ^ 15 = _ at inside
    omega
  · subst mode ten
    have quarter : sectionPa socketLfbSize 4 socPa naNps channelIndex nodeInst =
        putBits socPa (0x3 <<< 12) naNps 0x300 4 + nodeInst * (2 * (3 * 2 ^ 33)) := rfl
    have inside := putBits_div 2 4 (by decide) socPa naNps
    rw [quarter]
    change putBits socPa (0x3 <<< 12) naNps 0x300 4 / 2 ^ 15 = _ at inside
    omega
  · subst mode eleven
    have inside := putBits_div 3 4 (by decide) socPa naNps
    have early := first rfl
    rw [sectionPa_eight]
    change putBits socPa (0x7 <<< 12) naNps 0x700 4 / 2 ^ 15 = _ at inside
    omega

theorem le_sectionPa (channel : channelIndex / 32 = nodeInst) (last : 2 ≤ nodeInst) :
    socketLfbSize ≤ sectionPa socketLfbSize 8 socPa naNps channelIndex nodeInst := by
  have size : socketLfbSize = 8 * (3 * 2 ^ 33) := rfl
  rw [sectionPa_eight]
  omega

end Modes

/-- An error address of a device with HBM3: there are fourteen row bits and three stacks, and the
lowest bit is no address bit. -/
structure Hbm3Addr (errAddr : Nat) : Prop where
  aligned : errAddr.testBit 0 = false
  row : errAddr.testBit 24 = false
  stack : errAddr < 3 * 2 ^ 26

section Normalized

variable {a b errAddr : Nat}

theorem Hbm3Addr.setBank (addr : Hbm3Addr errAddr) (rowMask : Nat) :
    Hbm3Addr (setBank errAddr (bankHash rowMask errAddr)) := by
  refine ⟨?_, ?_, ?_⟩
  · rw [testBit_setBank, if_neg (by decide), addr.aligned]
  · rw [testBit_setBank, if_neg (by decide), addr.row]
  · have upper : UmcV12.setBank errAddr (bankHash rowMask errAddr) / 2 ^ 26 = errAddr / 2 ^ 26 := by
      apply Nat.eq_of_testBit_eq
      intro j
      rw [Nat.testBit_div_two_pow, Nat.testBit_div_two_pow, testBit_setBank, if_neg (by omega)]
    have small := addr.stack
    omega

theorem mapping_once : ∀ i < 27, ∀ i' < 27,
    i ≠ 23 ∧ i' ≠ 23 ∧ (ma2naMapping.drop 1)[i]? = (ma2naMapping.drop 1)[i']? → i = i' := by
  decide

theorem lt_of_getElem?_mapping {i j : Nat} (there : (ma2naMapping.drop 1)[i]? = some j) :
    i < 27 := (List.getElem?_eq_some_iff.mp there).1

theorem Hbm3Addr.used (addr : Hbm3Addr errAddr) (i : Nat)
    (bit : (errAddr >>> 1).testBit i = true) : i ≠ 23 ∧ i < (ma2naMapping.drop 1).length := by
  rw [Nat.testBit_shiftRight] at bit
  constructor
  · rintro rfl
    rw [addr.row] at bit
    cases bit
  · change i < 27
    by_contra beyond
    have small : errAddr < 2 ^ (1 + i) :=
      calc errAddr < 3 * 2 ^ 26 := addr.stack
        _ < 2 ^ 28 := by decide
        _ ≤ 2 ^ (1 + i) := Nat.pow_le_pow_right (by decide) (by omega)
    rw [Nat.testBit_lt_two_pow small] at bit
    cases bit

theorem toNaNps_injective (addr : Hbm3Addr a) (addr' : Hbm3Addr b)
    (same : toNaNps ma2naMapping a = toNaNps ma2naMapping b) : a = b := by
  have halves : a >>> 1 = b >>> 1 := by
    apply eq_of_scatter_eq (fun i => i ≠ 23) ?_ addr.used addr'.used same
    intro i i' j use use' there there'
    exact mapping_once i (lt_of_getElem?_mapping there) i' (lt_of_getElem?_mapping there')
      ⟨use, use', there.trans there'.symm⟩
  apply Nat.eq_of_testBit_eq
  intro j
  cases j with
  | zero => rw [addr.aligned, addr'.aligned]
  | succ j =>
    have bits := congrArg (Nat.testBit · j) halves
    simpa only [Nat.testBit_shiftRight, Nat.add_comm 1] using bits

theorem toNaNps_div (addr : Hbm3Addr errAddr) :
    toNaNps ma2naMapping errAddr / 2 ^ 29 = errAddr / 2 ^ 26 := by
  have place : ∀ i < 27, ∀ j < 31, 29 ≤ j → (ma2naMapping.drop 1)[i]? = some j → i = j - 4 := by
    decide
  have top : ∀ position ∈ ma2naMapping.drop 1, position < 31 := by decide
  apply Nat.eq_of_testBit_eq
  intro k
  rw [Nat.testBit_div_two_pow, Nat.testBit_div_two_pow, Bool.eq_iff_iff, toNaNps, testBit_scatter]
  constructor
  · rintro ⟨i, there, bit⟩
    have high := top _ (List.mem_of_getElem? there)
    have index := place i (lt_of_getElem?_mapping there) (k + 29) high (by omega) there
    rw [Nat.testBit_shiftRight] at bit
    have position : 1 + i = k + 26 := by omega
    rwa [position] at bit
  · intro bit
    have position : k + 26 = 1 + (k + 25) := by omega
    rw [position, ← Nat.testBit_shiftRight] at bit
    refine ⟨k + 25, ?_, bit⟩
    have few : k + 25 < 27 := (addr.used (k + 25) bit).2
    have which : k = 0 ∨ k = 1 := by omega
    rcases which with zero | one
    · subst zero
      rfl
    · subst one
      rfl

theorem toNaNps_lt (addr : Hbm3Addr errAddr) : toNaNps ma2naMapping errAddr < 3 * 2 ^ 29 := by
  have quotient := toNaNps_div addr
  have small := addr.stack
  omega

end Normalized

section Channel

variable {addrIn : UmcMcaAddr}

theorem channelIdxTbl_node : ∀ node < 4, ∀ umc < 4, ∀ ch < 8,
    (((channelIdxTbl.getD node []).getD umc []).getD ch 0) / 32 = node := by
  decide

structure Placed (addrIn : UmcMcaAddr) : Prop where
  node : addrIn.nodeInst < 4
  umc : addrIn.umcInst < 4
  ch : addrIn.chInst < 8
  socket : addrIn.socketId < 8

theorem Placed.notInvalid (placed : Placed addrIn) : addrIn.nodeInst ≠ umcInvAidNode := by
  have small := placed.node
  have large : umcInvAidNode = 0xffff := rfl
  omega

theorem Placed.located (placed : Placed addrIn) : Located addrIn := by
  unfold Located
  rw [if_pos placed.notInvalid]
  exact ⟨placed.socket, placed.ch, placed.umc, placed.node⟩

theorem Placed.channelAndNode (placed : Placed addrIn) :
    ∃ channelIndex, channelIndex / 32 = addrIn.nodeInst ∧
      channelAndNode channelIdxTbl addrIn = (channelIndex, addrIn.nodeInst) := by
  refine ⟨_, ?_, if_pos placed.notInvalid⟩
  exact channelIdxTbl_node _ placed.node _ placed.umc _ placed.ch

end Channel

end MxGpu.UmcV12
