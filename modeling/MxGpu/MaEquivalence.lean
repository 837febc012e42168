import MxGpu.MaTranslation

/- The translation of error addresses as a map from the addresses of one channel: what it has to be,
and for which memories and modes it is. -/
namespace MxGpu.UmcV12

open BitFields

/-- The error addresses of a memory: HBM3E has one row bit more, of whose quarters the last does not
exist. -/
def Supported (vramType : DgpuVramType) (errAddr : Nat) : Prop :=
  errAddr.testBit 0 = false ∧ errAddr < 3 * 2 ^ 26 ∧
    if vramType = .hbm3e then ¬ (errAddr.testBit 23 = true ∧ errAddr.testBit 24 = true)
    else errAddr.testBit 24 = false

def lfbSize (vramType : DgpuVramType) : Nat :=
  if vramType = .hbm3e then socketLfbSizeHbm3e else socketLfbSize

/-- The translation of the error addresses at one place, in one mode: no two addresses go together,
all go into the frame buffer, libgv's translation is the same, and a record of an error is
translated to every other mode as the error itself. -/
structure Translates (vramType : DgpuVramType) (place : UmcMcaAddr) (nps : Nat) : Prop where
  injective : ∀ a b p q, Supported vramType a → Supported vramType b →
    convertMaToPa { place with errAddr := a } nps = some p →
    convertMaToPa { place with errAddr := b } nps = some q → p.pa = q.pa → a = b
  inside : ∀ a p, Supported vramType a →
    convertMaToPa { place with errAddr := a } nps = some p → p.pa < lfbSize vramType
  same : ∀ a, Supported vramType a →
    convertMaToPa { place with errAddr := a } nps =
      convertMaToNpsPa vramType { place with errAddr := a } nps true
  record : ∀ a p, Supported vramType a →
    convertMaToPa { place with errAddr := a } nps = some p →
    ∀ nps', convertMaToPa { place with
        errAddr := a
        chInst := p.channelIdx
        nodeInst := umcInvAidNode } nps' =
      convertMaToPa { place with errAddr := a } nps'

section Place

variable {vramType : DgpuVramType} {place : UmcMcaAddr} {nps a b : Nat}

theorem Supported.hbm3Addr (supported : Supported vramType a) (older : vramType ≠ .hbm3e) :
    Hbm3Addr a := by
  obtain ⟨aligned, stack, row⟩ := supported
  rw [if_neg older] at row
  exact ⟨aligned, row, stack⟩

theorem convertMaToPa_eq (placed : Placed place) {shift : Nat} (known : naShift nps = some shift) :
    ∃ channelIndex, channelIndex / 32 = place.nodeInst ∧
      channelAndNode channelIdxTbl place = (channelIndex, place.nodeInst) ∧ ∀ errAddr,
      convertMaToPa { place with errAddr := errAddr } nps = some
        { pa := sectionPa socketLfbSize nps
            (hashedPa socketLfbSize shift
              (toNaNps ma2naMapping (setBank errAddr (bankHash 0x3fff errAddr))) channelIndex
              place.socketId)
            (toNaNps ma2naMapping (setBank errAddr (bankHash 0x3fff errAddr))) channelIndex
            place.nodeInst
          bank := bankHash 0x3fff errAddr
          channelIdx := channelIndex } := by
  obtain ⟨channelIndex, node, pair⟩ := placed.channelAndNode
  refine ⟨channelIndex, node, pair, fun errAddr => ?_⟩
  have pair' : channelAndNode channelIdxTbl { place with errAddr := errAddr } =
      (channelIndex, place.nodeInst) := pair
  have located : Located { place with errAddr := errAddr } := placed.located
  simp only [convertMaToPa, if_pos located, known, Option.map_some, pair']

theorem socketLfbSize_granular : 2 ^ 15 ∣ socketLfbSize := ⟨0x600000, rfl⟩

theorem convertMaToPa_injective (placed : Placed place) {shift : Nat}
    (known : naShift nps = some shift) {p q : UmcPhyAddr} (addr : Hbm3Addr a) (addr' : Hbm3Addr b)
    (here : convertMaToPa { place with errAddr := a } nps = some p)
    (there : convertMaToPa { place with errAddr := b } nps = some q) (same : p.pa = q.pa) :
    a = b := by
  obtain ⟨channelIndex, node, -, gives⟩ := convertMaToPa_eq placed known
  have small : channelIndex < 2 ^ 7 := by
    have few := placed.node
    omega
  rw [gives] at here there
  cases here
  cases there
  have bits (errAddr : Nat) :=
    testBit_hashedPa (toNaNps ma2naMapping (setBank errAddr (bankHash 0x3fff errAddr))) shift
      place.socketId small socketLfbSize_granular
  have words := sectionPa_injective known (bits a).1 (bits a).2 (bits b).1 (bits b).2 same
  exact setBank_injective 0x3fff (toNaNps_injective (addr.setBank _) (addr'.setBank _) words)

theorem convertMaToPa_lt (placed : Placed place) {shift : Nat} (known : naShift nps = some shift)
    (first : nps = 8 → place.nodeInst < 2) {p : UmcPhyAddr} (addr : Hbm3Addr a)
    (here : convertMaToPa { place with errAddr := a } nps = some p) : p.pa < socketLfbSize := by
  obtain ⟨channelIndex, node, -, gives⟩ := convertMaToPa_eq placed known
  have small : channelIndex < 2 ^ 7 := by
    have few := placed.node
    omega
  rw [gives] at here
  cases here
  exact sectionPa_lt known (toNaNps_lt (addr.setBank _))
    (hashedPa_div small socketLfbSize_granular) placed.node node first

theorem convertMaToPa_record (placed : Placed place) {shift : Nat}
    (known : naShift nps = some shift) {p : UmcPhyAddr}
    (here : convertMaToPa { place with errAddr := a } nps = some p) (nps' : Nat) :
    convertMaToPa { place with
        errAddr := a
        chInst := p.channelIdx
        nodeInst := umcInvAidNode } nps' =
      convertMaToPa { place with errAddr := a } nps' := by
  obtain ⟨channelIndex, node, pair, gives⟩ := convertMaToPa_eq placed known
  rw [gives] at here
  cases here
  have few := placed.node
  have located : Located { place with errAddr := a } := placed.located
  have located' : Located { place with
      errAddr := a
      chInst := channelIndex
      nodeInst := umcInvAidNode } := by
    refine ⟨placed.socket, ?_⟩
    rw [if_neg (not_not.mpr rfl)]
    change channelIndex < 128
    omega
  have pair' : channelAndNode channelIdxTbl { place with errAddr := a } =
      (channelIndex, place.nodeInst) := pair
  have recorded : channelAndNode channelIdxTbl { place with
      errAddr := a
      chInst := channelIndex
      nodeInst := umcInvAidNode } = (channelIndex, place.nodeInst) := by
    rw [channelAndNode, if_neg (not_not.mpr rfl), node]
  simp only [convertMaToPa, if_pos located, if_pos located', pair', recorded]

theorem convertMaToNpsPa_eq (older : vramType ≠ .hbm3e) (addrIn : UmcMcaAddr) (nps : Nat) :
    convertMaToNpsPa vramType addrIn nps true = convertMaToPa addrIn nps := by
  simp only [convertMaToNpsPa, convertMaToPa, older, decide_false, if_true, Bool.false_eq_true,
    if_false]

theorem rows_collide : Supported .hbm3e (2 ^ 19) ∧ Supported .hbm3e (2 ^ 24 + 2 ^ 7) ∧
    bankHash 0x3fff (2 ^ 19) = bankHash 0x3fff (2 ^ 24 + 2 ^ 7) ∧
    toNaNps ma2naMapping (setBank (2 ^ 19) (bankHash 0x3fff (2 ^ 19))) =
      toNaNps ma2naMapping (setBank (2 ^ 24 + 2 ^ 7) (bankHash 0x3fff (2 ^ 24 + 2 ^ 7))) := by
  unfold Supported
  decide

/-- The translation is what it has to be where the memory is not HBM3E and, in NPS8, the node is
one of the first two. -/
theorem ma_to_pa_iff (placed : Placed place) (mode : nps ∈ [1, 2, 4, 8]) :
    Translates vramType place nps ↔
      vramType ≠ .hbm3e ∧ (nps = 8 → place.nodeInst < 2) := by
  have known : ∃ shift, naShift nps = some shift := by
    revert mode
    simp only [List.mem_cons, List.not_mem_nil, or_false]
    rintro (rfl | rfl | rfl | rfl)
    · exact ⟨8, rfl⟩
    · exact ⟨9, rfl⟩
    · exact ⟨10, rfl⟩
    · exact ⟨11, rfl⟩
  obtain ⟨shift, known⟩ := known
  obtain ⟨channelIndex, node, pair, gives⟩ := convertMaToPa_eq placed known
  constructor
  · intro translates
    have older : vramType ≠ .hbm3e := by
      intro newer
      subst newer
      obtain ⟨supported, supported', banks, words⟩ := rows_collide
      have here := gives (2 ^ 19)
      have there := gives (2 ^ 24 + 2 ^ 7)
      rw [← words] at there
      have same := translates.injective _ _ _ _ supported supported' here there rfl
      exact absurd same (by decide)
    refine ⟨older, fun eight => ?_⟩
    subst eight
    by_contra last
    have zero : Supported vramType 0 := by
      refine ⟨rfl, by decide, ?_⟩
      rw [if_neg older]
      rfl
    have inside := translates.inside 0 _ zero (gives 0)
    rw [lfbSize, if_neg older] at inside
    exact absurd inside (Nat.not_lt.mpr (le_sectionPa node (Nat.not_lt.mp last)))
  · rintro ⟨older, first⟩
    refine ⟨?_, ?_, ?_, ?_⟩
    · intro a b p q supported supported' here there same
      exact convertMaToPa_injective placed known (supported.hbm3Addr older)
        (supported'.hbm3Addr older) here there same
    · intro a p supported here
      rw [lfbSize, if_neg older]
      exact convertMaToPa_lt placed known first (supported.hbm3Addr older) here
    · intro a _
      exact (convertMaToNpsPa_eq older _ nps).symm
    · intro a p _ here nps'
      exact convertMaToPa_record placed known here nps'

/-- The first channel of the first socket with HBM3, in NPS4. -/
theorem ma_to_pa_hbm3 : Translates .hbm3 ⟨0, 0, 0, 0, 0⟩ 4 :=
  (ma_to_pa_iff ⟨by decide, by decide, by decide, by decide⟩ (by decide)).mpr
    ⟨by decide, by decide⟩

/-- With HBM3E two rows go to one address, and libgv has another for the first. -/
theorem hbm3e_rows_collide :
    Supported .hbm3e (2 ^ 19) ∧ Supported .hbm3e (2 ^ 24 + 2 ^ 7) ∧
      convertMaToPa ⟨2 ^ 19, 0, 0, 0, 0⟩ 1 = convertMaToPa ⟨2 ^ 24 + 2 ^ 7, 0, 0, 0, 0⟩ 1 ∧
      (convertMaToPa ⟨2 ^ 19, 0, 0, 0, 0⟩ 1).isSome = true ∧
      convertMaToPa ⟨2 ^ 19, 0, 0, 0, 0⟩ 1 ≠
        convertMaToNpsPa .hbm3e ⟨2 ^ 19, 0, 0, 0, 0⟩ 1 true := by
  unfold Supported
  decide +kernel

end Place

end MxGpu.UmcV12
