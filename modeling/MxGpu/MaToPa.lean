import MxGpu.RowExpansion
import MxGpu.UmcV12Bank

/- The translation of MCA error addresses of UMC 12 to physical addresses, in both drivers
(`rascore/ras_umc_v12_0.c`, `libgv/core/hw/AI/mi300/umc_v12_0.c`). -/
namespace MxGpu.UmcV12

open BitFields

structure UmcMcaAddr where
  errAddr : Nat
  chInst : Nat
  umcInst : Nat
  nodeInst : Nat
  socketId : Nat
  deriving DecidableEq

structure UmcPhyAddr where
  pa : Nat
  bank : Nat
  channelIdx : Nat
  deriving DecidableEq

/-- `UMC_INV_AID_NODE`, and `RAS_INV_AID_NODE` of libgv -/
def umcInvAidNode : Nat := 0xffff

/-- `umc_v12_0_channel_idx_tbl`, the same in both drivers -/
def channelIdxTbl : List (List (List Nat)) :=
  [[[3, 7, 11, 15, 2, 6, 10, 14], [1, 5, 9, 13, 0, 4, 8, 12],
    [19, 23, 27, 31, 18, 22, 26, 30], [17, 21, 25, 29, 16, 20, 24, 28]],
   [[47, 43, 39, 35, 46, 42, 38, 34], [45, 41, 37, 33, 44, 40, 36, 32],
    [63, 59, 55, 51, 62, 58, 54, 50], [61, 57, 53, 49, 60, 56, 52, 48]],
   [[79, 75, 71, 67, 78, 74, 70, 66], [77, 73, 69, 65, 76, 72, 68, 64],
    [95, 91, 87, 83, 94, 90, 86, 82], [93, 89, 85, 81, 92, 88, 84, 80]],
   [[99, 103, 107, 111, 98, 102, 106, 110], [97, 101, 105, 109, 96, 100, 104, 108],
    [115, 119, 123, 127, 114, 118, 122, 126], [113, 117, 121, 125, 112, 116, 120, 124]]]

/-- `umc_v12_5_channel_idx_tbl` of libgv -/
def channelIdxTbl125 : List (List (List Nat)) :=
  [[[10, 13, 15, 14, 9, 12, 11, 7], [6, 4, 5, 8, 1, 2, 3, 0],
    [28, 27, 31, 30, 24, 29, 25, 21], [23, 18, 22, 26, 19, 20, 16, 17]],
   [[42, 45, 47, 46, 41, 44, 43, 39], [38, 36, 37, 40, 33, 34, 35, 32],
    [60, 59, 63, 62, 56, 61, 57, 53], [55, 50, 54, 58, 51, 52, 48, 49]],
   [[74, 77, 79, 78, 73, 76, 75, 71], [70, 68, 69, 72, 65, 66, 67, 64],
    [92, 91, 95, 94, 88, 93, 89, 85], [87, 82, 86, 90, 83, 84, 80, 81]],
   [[106, 109, 111, 110, 105, 108, 107, 103], [102, 100, 101, 104, 97, 98, 99, 96],
    [124, 123, 127, 126, 120, 125, 121, 117], [119, 114, 118, 122, 115, 116, 112, 113]]]

/-- `umc_v12_0_ma2na_mapping`, the same in both drivers -/
def ma2naMapping : List Nat :=
  [0, 5, 6, 8, 9, 14, 12, 13, 10, 11, 15, 16, 17, 18, 19, 20, 21, 22, 23, 24, 25, 26, 27, 28,
    24, 7, 29, 30]

/-- `umc_v12_5_ma2na_mapping` of libgv -/
def ma2naMapping125 : List Nat :=
  [0, 5, 6, 8, 9, 14, 12, 13, 10, 11, 15, 16, 17, 18, 19, 20, 21, 22, 23, 24, 25, 26, 27, 28,
    29, 7, 30, 31]

def bitWiseXor (val : Nat) : Bool :=
  (List.range 32).foldl (fun result i => result ^^ val.testBit i) false

/-- A bank bit of an error address after the hash; `UMC_V12_0_XOR_EN*` are all set. -/
def bankBit (errAddr rowMask bit colXor rowXor : Nat) : Bool :=
  let col := errAddr >>> 1 &&& 0x1f
  let row := errAddr >>> 10 &&& rowMask
  errAddr.testBit bit ^^ (bitWiseXor (col &&& colXor) ^^ bitWiseXor (row &&& rowXor))

/-- The bank hash, with `UMC_V12_0_COL_XOR*` and `UMC_V12_0_ROW_XOR*`. -/
def bankHash (rowMask errAddr : Nat) : Nat :=
  (bankBit errAddr rowMask 6 0 0x11111).toNat |||
    (bankBit errAddr rowMask 7 0 0x22222).toNat <<< 1 |||
    (bankBit errAddr rowMask 8 0x800 0x4444).toNat <<< 2 |||
    (bankBit errAddr rowMask 9 0x1000 0x8888).toNat <<< 3

def setBank (errAddr bank : Nat) : Nat := errAddr ^^^ (errAddr &&& 0x3c0) ||| bank <<< 6

def toNaNps (mapping : List Nat) (errAddr : Nat) : Nat :=
  scatter (mapping.drop 1) (errAddr >>> 1)

def naShift (nps : Nat) : Option Nat :=
  if nps = 1 then some 8
  else if nps = 2 then some 9
  else if nps = 4 then some 10
  else if nps = 8 then some 11
  else none

def Located (addrIn : UmcMcaAddr) : Prop :=
  addrIn.socketId < 8 ∧
    if addrIn.nodeInst ≠ umcInvAidNode then
      addrIn.chInst < 8 ∧ addrIn.umcInst < 4 ∧ addrIn.nodeInst < 4
    else addrIn.chInst < 128

instance (addrIn : UmcMcaAddr) : Decidable (Located addrIn) := by
  unfold Located
  infer_instance

/-- `channel_index` and `node_inst` -/
def channelAndNode (tbl : List (List (List Nat))) (addrIn : UmcMcaAddr) : Nat × Nat :=
  if addrIn.nodeInst ≠ umcInvAidNode then
    (((tbl.getD addrIn.nodeInst []).getD addrIn.umcInst []).getD addrIn.chInst 0,
      addrIn.nodeInst)
  else (addrIn.chInst, addrIn.chInst / 32)

/-- The physical address of a normalized one, before the channel bits of a partition mode. -/
def hashedPa (lfbSize naShift naNps channelIndex socketId : Nat) : Nat :=
  let na := naNps >>> naShift <<< 8 ||| (naNps &&& 0xff)
  let socPa := na >>> 8 <<< 15 ||| channelIndex <<< 8 ||| (na &&& 0xff)
  -- the hash is of the absolute address
  setChannelHash channelIndex (socPa + socketId * lfbSize) - socketId * lfbSize

/-- An address with bits of a normalized one in place of channel bits. -/
def putBits (socPa mask naNps naMask shift : Nat) : Nat :=
  socPa ^^^ (socPa &&& mask) ||| (naNps &&& naMask) <<< shift

/-- Some channel bits of the partition modes are not hashed, and the sections of each mode follow
one another. -/
def sectionPa (lfbSize nps socPa naNps channelIndex nodeInst : Nat) : Nat :=
  if nps = 2 then
    putBits socPa (0x1 <<< 13) naNps 0x100 5 + nodeInst >>> 1 * (lfbSize >>> 1)
  else if nps = 4 then
    putBits socPa (0x3 <<< 12) naNps 0x300 4 + nodeInst * (lfbSize >>> 2)
  else if nps = 8 then
    putBits socPa (0x7 <<< 12) naNps 0x700 4 +
      (nodeInst * (lfbSize >>> 2) + channelIndex >>> 4 * (lfbSize >>> 3))
  else socPa

def socketLfbSize : Nat := 0x3000000000

/-- `umc_v12_convert_ma_to_pa` of `ras_umc_v12_0.c`, or nothing with `RAS_CORE_EINVAL` -/
def convertMaToPa (addrIn : UmcMcaAddr) (nps : Nat) : Option UmcPhyAddr :=
  if Located addrIn then
    (naShift nps).map fun shift =>
      let bank := bankHash 0x3fff addrIn.errAddr
      let naNps := toNaNps ma2naMapping (setBank addrIn.errAddr bank)
      let (channelIndex, nodeInst) := channelAndNode channelIdxTbl addrIn
      let socPa := hashedPa socketLfbSize shift naNps channelIndex addrIn.socketId
      { pa := sectionPa socketLfbSize nps socPa naNps channelIndex nodeInst
        bank := bank
        channelIdx := channelIndex }
  else none

/-- The stack and the upper row bits of HBM3E: there are three upper rows to a stack. -/
def convertAddrhi (naNps : Nat) : Nat :=
  let addrhi := (naNps &&& 0xf0000000) >>> 28
  naNps ^^^ (naNps &&& 0xf0000000) ||| (addrhi >>> 2 * 3 + addrhi % 4) <<< 28

/-- `convert_ma_to_nps_pa` of libgv, or nothing with an error -/
def convertMaToNpsPa (vramType : DgpuVramType) (addrIn : UmcMcaAddr) (nps : Nat) (isMa : Bool) :
    Option UmcPhyAddr :=
  let hbm3e : Bool := vramType = .hbm3e
  let lfbSize := if hbm3e then socketLfbSizeHbm3e else socketLfbSize
  if Located addrIn then
    (naShift nps).map fun shift =>
      let bank := if isMa then bankHash (if hbm3e then 0x7fff else 0x3fff) addrIn.errAddr else 0
      let errAddr := if isMa then setBank addrIn.errAddr bank else addrIn.errAddr
      let naNps :=
        if hbm3e then convertAddrhi (toNaNps ma2naMapping125 errAddr)
        else toNaNps ma2naMapping errAddr
      let (channelIndex, nodeInst) :=
        channelAndNode (if hbm3e then channelIdxTbl125 else channelIdxTbl) addrIn
      let socPa := hashedPa lfbSize shift naNps channelIndex addrIn.socketId
      { pa := sectionPa lfbSize nps socPa naNps channelIndex nodeInst
        bank := bank
        channelIdx := channelIndex }
  else none

end MxGpu.UmcV12
