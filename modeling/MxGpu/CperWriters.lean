import MxGpu.CperDump

/- How the host builds a record, byte by byte: `amdgv_cper_alloc_entry` and the functions that fill
it. Offsets count from the start of the record; the structures are packed. -/
namespace Cper.Host

open ByteStore

inductive CperType where
  | runtime
  | fatal
  | boot
  | bpThr
  deriving DecidableEq

inductive Severity where
  | nonFatalUncorrected
  | fatal
  | nonFatalCorrected
  deriving DecidableEq

def Severity.value : Severity → Nat
  | .nonFatalUncorrected => 0
  | .fatal => 1
  | .nonFatalCorrected => 2

def guidInit (a b c : Nat) (d : List UInt8) : List UInt8 :=
  leBytes 4 a ++ leBytes 2 b ++ leBytes 2 c ++ d

def mce : List UInt8 :=
  guidInit 0xE8F56FFE 0x919C 0x4cc5 [0xBA, 0x88, 0x65, 0xAB, 0xE1, 0x49, 0x13, 0xBB]
def cmc : List UInt8 :=
  guidInit 0x2DCE8BB1 0xBDD7 0x450e [0xB9, 0xAD, 0x9C, 0xF4, 0xEB, 0xD4, 0xF8, 0x90]
def bootType : List UInt8 :=
  guidInit 0x3D61A466 0xAB40 0x409a [0xA6, 0x98, 0xF3, 0x62, 0xD4, 0x64, 0xB3, 0x8F]
def crashdump : List UInt8 :=
  guidInit 0x32AC0C78 0x2623 0x48F6 [0xB0, 0xD0, 0x73, 0x65, 0x72, 0x5F, 0xD6, 0xAE]
def runtime : List UInt8 :=
  guidInit 0x32AC0C78 0x2623 0x48F6 [0x81, 0xA2, 0xAC, 0x69, 0x17, 0x80, 0x55, 0x1D]

/-- The fields of `struct cper_timestamp` that are filled. -/
structure Timestamp where
  seconds : UInt8
  minutes : UInt8
  hours : UInt8
  day : UInt8
  month : UInt8
  year : UInt8
  century : UInt8

/-- What the writers take from the adapter: the texts that they format, the time, and numbers. -/
structure Adapter where
  recordId : List UInt8
  creatorId : List UInt8
  platformId : List UInt8
  fruText : List UInt8
  productSerial : List UInt8
  timestamp : Timestamp
  devId : Nat
  pldmVersion : Nat

/-- `oss_vsnprintf` of a text to a field of `size` bytes. -/
def vsnprintf (size : Nat) (text : List UInt8) : List UInt8 := text.take (size - 1) ++ [0]

def setBits (m : Store) (off : Nat) (bits : UInt8) : Store := write m off [m off ||| bits]

/-- A number of `width` bytes. -/
def field (m : Store) (off width : Nat) : Nat := ofLe (read m off width)

def secDescOffset (idx : Nat) : Nat := hdrLen + secDescLen * idx

/-- `FATAL_SEC_LEN`, `BOOT_SEC_LEN` and `NONSTD_SEC_LEN`. -/
def CperType.secLen : CperType → Nat
  | .runtime | .bpThr => 272
  | .fatal => 176
  | .boot => 208

/-- `FATAL_SEC_OFFSET`, `BOOT_SEC_OFFSET` and `NONSTD_SEC_OFFSET`. -/
def CperType.secOffset (type : CperType) (count idx : Nat) : Nat :=
  hdrLen + secDescLen * count + type.secLen * idx

inductive Section : CperType → Type where
  /-- the eight words of `struct cper_sec_crashdump_reg_data` -/
  | fatal (regData : Fin 8 → Nat) : Section .fatal
  | boot (msg : List Nat) : Section .boot
  | runtime (sev : Severity) (regDump : List Nat) : Section .runtime
  | badPageThr (oamId : Nat) : Section .bpThr

section Writers

/-- `amdgv_cper_alloc_entry`: zeroes, with the number of sections. -/
def allocEntry (sectionCount : Nat) : Store := write (fun _ => 0) 10 (leBytes 2 sectionCount)

def incEntryLength (m : Store) (size : Nat) : Store :=
  write m 20 (leBytes 4 (field m 20 4 + size))

def notifyType (type : CperType) (sev : Severity) : List UInt8 :=
  match type with
  | .boot => bootType
  | .fatal | .bpThr => mce
  | .runtime => if sev = .nonFatalCorrected then cmc else mce

/-- `amdgv_cper_fill_timestamp`, with the components of the time at hand. -/
def fillTimestamp (ts : Timestamp) (m : Store) : Store :=
  let m := write m 24 [ts.seconds, ts.minutes, ts.hours]
  write m 28 [ts.day, ts.month, ts.year, ts.century]

def fillHdr (adapt : Adapter) (type : CperType) (sev : Severity) (m : Store) : Store :=
  let m := write m 0 [0x43, 0x50, 0x45, 0x52]
  let m := write m 4 (leBytes 2 0x100)
  let m := write m 6 (leBytes 4 0xffffffff)
  let m := write m 12 (leBytes 4 sev.value)
  let m := setBits m 16 1
  let m := setBits m 16 2
  let m := write m 96 (vsnprintf 8 adapt.recordId)
  let m := fillTimestamp adapt.timestamp m
  let m := write m 64 (vsnprintf 16 adapt.creatorId)
  let m := write m 32 (vsnprintf 16 adapt.platformId)
  let m := write m 80 (notifyType type sev)
  incEntryLength m hdrLen

def fillPlaces (desc sectionLength sectionOffset : Nat) (m : Store) : Store :=
  let m := write m (desc + 8) [0x02]
  let m := write m (desc + 9) [0x22]
  let m := write m desc (leBytes 4 sectionOffset)
  let m := write m (desc + 4) (leBytes 4 sectionLength)
  let m := setBits m (desc + 10) 1
  setBits m (desc + 10) 2

def fillTexts (adapt : Adapter) (desc : Nat) (bpThreshold poison : Bool) (sev : Severity)
    (secType : List UInt8) (m : Store) : Store :=
  let m := setBits m (desc + 12) 1
  let m := write m (desc + 48) (leBytes 4 sev.value)
  let m := write m (desc + 16) secType
  let m := write m (desc + 52) (vsnprintf 20 adapt.fruText)
  let m := write m (desc + 32) (vsnprintf 16 adapt.productSerial)
  let m := if bpThreshold then setBits m (desc + 12) 8 else m
  if poison then setBits m (desc + 12) 16 else m

def fillSectionDesc (adapt : Adapter) (desc : Nat) (bpThreshold poison : Bool) (sev : Severity)
    (secType : List UInt8) (sectionLength sectionOffset : Nat) (m : Store) : Store :=
  fillTexts adapt desc bpThreshold poison sev secType
    (fillPlaces desc sectionLength sectionOffset m)

/-- The context of a crash dump or of a dump of registers, 128 bytes into the section. -/
def fillContext (sec regCtxType regArrSize : Nat) (data : List UInt8) (m : Store) : Store :=
  let m := write m (sec + 128) (leBytes 2 regCtxType)
  let m := write m (sec + 130) (leBytes 2 regArrSize)
  write m (sec + 144) data

/-- What runtime sections and those of the bad page threshold share: the header of the section
and the type of the error. -/
def fillNonstd (adapt : Adapter) (sec : Nat) (m : Store) : Store :=
  let m := setBits m (sec + 1) 0x40
  let m := if adapt.pldmVersion = 0 then m else setBits m (sec + 1) 0x80
  let m := setBits m sec 0x04
  let m := setBits m (sec + 1) 0x01
  let m := write m (sec + 8) (leBytes 4 adapt.devId)
  let m := write m (sec + 12) (leBytes 4 adapt.pldmVersion)
  let m := write m (sec + 64) runtime
  setBits m (sec + 88) 1

/-- The registers of a record of the bad page threshold; the ones not named stay zero. -/
def thresholdRegs (oamId : Nat) : List Nat :=
  [0x1, 0x0, 0x137, 0xB0000000, 0x0, 0x0, 0x0, 0x0, 0x2, 0x1ff,
    oamId / 4 % 2, 0x96 ||| oamId % 4 * 4096, 0x0, 0x0]

def fillBody (adapt : Adapter) (sec : Nat) (m : Store) {type : CperType} : Section type → Store
  | .fatal regData => fillContext sec 1 32 ((List.ofFn regData).flatMap (leBytes 4)) m
  | .boot msg => fillContext sec 9 64 ((msg.take 8).flatMap (leBytes 8)) m
  | .runtime _ regDump =>
    fillContext sec 1 128 ((regDump.take 32).flatMap (leBytes 4)) (fillNonstd adapt sec m)
  | .badPageThr oamId =>
    let m := fillNonstd adapt sec m
    let m := setBits m (sec + 80) 1
    let m := setBits m (sec + 90) 1
    let m := setBits m (sec + 90) 4
    fillContext sec 1 128 ((thresholdRegs oamId).flatMap (leBytes 4)) m

/-- `bp_threshold`, `poison`, severity and type that the functions give their descriptors. -/
def descArgs {type : CperType} : Section type → Bool × Bool × Severity × List UInt8
  | .fatal _ => (false, false, .fatal, crashdump)
  | .boot _ => (false, false, .fatal, crashdump)
  | .runtime sev _ => (false, sev != .nonFatalCorrected, sev, runtime)
  | .badPageThr _ => (true, false, .fatal, runtime)

/-- `amdgv_cper_entry_fill_fatal_section`, `_boot_section`, `_runtime_section` and
`_bad_page_thr_section`. -/
def fillSection (adapt : Adapter) (count idx : Nat) {type : CperType} (content : Section type)
    (m : Store) : Store :=
  let (bpThreshold, poison, sev, secType) := descArgs content
  let m := fillSectionDesc adapt (secDescOffset idx) bpThreshold poison sev secType type.secLen
    (type.secOffset count idx) m
  let m := fillBody adapt (type.secOffset count idx) m content
  incEntryLength m (secDescLen + type.secLen)

/-- The sections from `idx` on. -/
def fillSections (adapt : Adapter) (count : Nat) {type : CperType} :
    Nat → List (Section type) → Store → Store
  | _, [], m => m
  | idx, content :: rest, m =>
    fillSections adapt count (idx + 1) rest (fillSection adapt count idx content m)

def buildEntry (adapt : Adapter) (type : CperType) (sev : Severity)
    (sections : List (Section type)) : Store :=
  fillSections adapt sections.length 0 sections
    (fillHdr adapt type sev (allocEntry sections.length))

end Writers

section Lengths

theorem vsnprintf_length {size : Nat} (room : 0 < size) (text : List UInt8) :
    (vsnprintf size text).length ≤ size := by
  unfold vsnprintf
  rw [List.length_append, List.length_take, List.length_singleton]
  omega

@[simp] theorem notifyType_length (type : CperType) (sev : Severity) :
    (notifyType type sev).length = 16 := by
  cases type with
  | runtime =>
    show (if sev = .nonFatalCorrected then cmc else mce).length = 16
    split <;> rfl
  | _ => rfl

@[simp] theorem flatMap_leBytes_length (width : Nat) (values : List Nat) :
    (values.flatMap (leBytes width)).length = values.length * width := by
  induction values with
  | nil => simp
  | cons value rest ih =>
    rw [List.flatMap_cons, List.length_append, leBytes_length, ih, List.length_cons,
      Nat.succ_mul, Nat.add_comm]

end Lengths

section Frames

variable (adapt : Adapter) {m : Store}

theorem setBits_same {a b off : Nat} {m m' : Store} (same : SameOutside a b m m') (low : a ≤ off)
    (high : off < b) (bits : UInt8) : SameOutside a b m (setBits m' off bits) :=
  same.write low (by rw [List.length_singleton]; omega)

theorem incEntryLength_same (m : Store) (size : Nat) :
    SameOutside 20 24 m (incEntryLength m size) :=
  (SameOutside.refl 20 24 m).write (Nat.le_refl _) (by simp)

theorem incEntryLength_length (m : Store) (size : Nat) :
    field (incEntryLength m size) 20 4 = (field m 20 4 + size) % 2 ^ 32 := by
  unfold incEntryLength
  show ofLe (read _ 20 4) = _
  rw [read_write_self (leBytes_length _ _), ofLe_leBytes, show (256 : Nat) ^ 4 = 2 ^ 32 from rfl]

theorem setBits_at (m : Store) (off : Nat) (bits : UInt8) :
    setBits m off bits off = m off ||| bits := by
  simp [setBits, write]

theorem bit_stays (b : UInt8) : (b ||| 1 ||| 2) &&& 1 = 1 := by
  apply UInt8.eq_of_toBitVec_eq
  apply BitVec.eq_of_getLsbD_eq
  intro i _
  simp
  grind

theorem fillHdr_places (type : CperType) (sev : Severity) (m : Store) :
    read (fillHdr adapt type sev m) 10 2 = read m 10 2 ∧
      field (fillHdr adapt type sev m) 20 4 = (field m 20 4 + hdrLen) % 2 ^ 32 := by
  constructor
  · simp (disch := simp <;> omega) only [fillHdr, fillTimestamp, incEntryLength, setBits,
      read_write_outside]
  · rw [fillHdr, incEntryLength_length]
    simp (disch := simp <;> omega) only [fillTimestamp, setBits, field, read_write_outside]

theorem fillPlaces_spec (desc sectionLength sectionOffset : Nat) (m : Store) :
    SameOutside desc (desc + 12) m (fillPlaces desc sectionLength sectionOffset m) ∧
      read (fillPlaces desc sectionLength sectionOffset m) desc 4 = leBytes 4 sectionOffset ∧
      read (fillPlaces desc sectionLength sectionOffset m) (desc + 4) 4 =
        leBytes 4 sectionLength ∧
      fillPlaces desc sectionLength sectionOffset m (desc + 10) &&& 1 = 1 := by
  refine ⟨?_, ?_, ?_, ?_⟩
  · unfold fillPlaces
    apply setBits_same _ (by omega) (by omega)
    apply setBits_same _ (by omega) (by omega)
    apply SameOutside.write _ (by omega) (by simp)
    apply SameOutside.write _ (by omega) (by simp)
    apply SameOutside.write _ (by omega) (by simp)
    apply SameOutside.write _ (by omega) (by simp)
    exact SameOutside.refl _ _ _
  · unfold fillPlaces setBits
    rw [read_write_outside (by simp), read_write_outside (by simp), read_write_outside (by simp),
      read_write_self (leBytes_length _ _)]
  · unfold fillPlaces setBits
    rw [read_write_outside (by simp), read_write_outside (by simp),
      read_write_self (leBytes_length _ _)]
  · unfold fillPlaces
    rw [setBits_at, setBits_at]
    exact bit_stays _

theorem fillTexts_same (desc : Nat) (bpThreshold poison : Bool) (sev : Severity)
    {secType : List UInt8} (guid : secType.length = 16) (m : Store) :
    SameOutside (desc + 12) (desc + 72) m
      (fillTexts adapt desc bpThreshold poison sev secType m) := by
  have fruText := vsnprintf_length (by decide : 0 < 20) adapt.fruText
  have fruId := vsnprintf_length (by decide : 0 < 16) adapt.productSerial
  have texts : SameOutside (desc + 12) (desc + 72) m
      (write (write (write (write (setBits m (desc + 12) 1) (desc + 48) (leBytes 4 sev.value))
        (desc + 16) secType) (desc + 52) (vsnprintf 20 adapt.fruText)) (desc + 32)
        (vsnprintf 16 adapt.productSerial)) := by
    apply SameOutside.write _ (by omega) (by omega)
    apply SameOutside.write _ (by omega) (by omega)
    apply SameOutside.write _ (by omega) (by omega)
    apply SameOutside.write _ (by omega) (by simp)
    apply setBits_same _ (by omega) (by omega)
    exact SameOutside.refl _ _ _
  unfold fillTexts
  cases bpThreshold <;> cases poison
  · exact texts
  · exact setBits_same texts (by omega) (by omega) _
  · exact setBits_same texts (by omega) (by omega) _
  · exact setBits_same (setBits_same texts (by omega) (by omega) _) (by omega) (by omega) _

theorem fillContext_same {sec len : Nat} {m m' : Store} (same : SameOutside sec (sec + len) m m')
    (regCtxType regArrSize : Nat) {data : List UInt8} (fits : 144 + data.length ≤ len) :
    SameOutside sec (sec + len) m (fillContext sec regCtxType regArrSize data m') := by
  unfold fillContext
  apply SameOutside.write _ (by omega) (by omega)
  apply SameOutside.write _ (by omega) (by simp; omega)
  apply SameOutside.write _ (by omega) (by simp; omega)
  exact same

theorem fillNonstd_same (sec : Nat) (m : Store) :
    SameOutside sec (sec + 272) m (fillNonstd adapt sec m) := by
  have first : SameOutside sec (sec + 272) m (setBits m (sec + 1) 0x40) :=
    setBits_same (SameOutside.refl _ _ _) (by omega) (by omega) _
  have second : SameOutside sec (sec + 272) m
      (if adapt.pldmVersion = 0 then setBits m (sec + 1) 0x40
        else setBits (setBits m (sec + 1) 0x40) (sec + 1) 0x80) := by
    split
    · exact first
    · exact setBits_same first (by omega) (by omega) _
  unfold fillNonstd
  apply setBits_same _ (by omega) (by omega)
  apply SameOutside.write _ (by omega) (by simp [runtime, guidInit])
  apply SameOutside.write _ (by omega) (by simp)
  apply SameOutside.write _ (by omega) (by simp)
  apply setBits_same _ (by omega) (by omega)
  apply setBits_same _ (by omega) (by omega)
  exact second

theorem fillBody_same {type : CperType} (content : Section type) (sec : Nat) (m : Store) :
    SameOutside sec (sec + type.secLen) m (fillBody adapt sec m content) := by
  cases content with
  | fatal regData =>
    exact fillContext_same (SameOutside.refl _ _ _) _ _ (by simp [CperType.secLen])
  | boot msg =>
    apply fillContext_same (SameOutside.refl _ _ _) _ _
    simp only [flatMap_leBytes_length, List.length_take, CperType.secLen]
    omega
  | runtime sev regDump =>
    apply fillContext_same (fillNonstd_same adapt sec m) _ _
    simp only [flatMap_leBytes_length, List.length_take]
    omega
  | badPageThr oamId =>
    show SameOutside sec (sec + 272) m _
    apply fillContext_same _ _ _ (by simp [thresholdRegs])
    apply setBits_same _ (by omega) (by omega)
    apply setBits_same _ (by omega) (by omega)
    apply setBits_same _ (by omega) (by omega)
    exact fillNonstd_same adapt sec m

end Frames

section Built

variable (adapt : Adapter) {type : CperType} {count : Nat} {m : Store}

/-- A record of which the header and the first `j` sections are filled. -/
structure Filled (type : CperType) (count j : Nat) (m : Store) : Prop where
  secCnt : read m 10 2 = leBytes 2 count
  length : field m 20 4 = hdrLen + (secDescLen + type.secLen) * j
  offset : ∀ i < j, read m (secDescOffset i) 4 = leBytes 4 (type.secOffset count i)
  secLength : ∀ i < j, read m (secDescOffset i + 4) 4 = leBytes 4 type.secLen
  fruId : ∀ i < j, m (secDescOffset i + 10) &&& 1 = 1

theorem record_short (type : CperType) (few : count < 2 ^ 16) :
    hdrLen + (secDescLen + type.secLen) * count < 2 ^ 32 := by
  unfold hdrLen secDescLen
  cases type
  all_goals
    simp only [CperType.secLen]
    omega

theorem fillHdr_filled (sev : Severity) :
    Filled type count 0 (fillHdr adapt type sev (allocEntry count)) := by
  obtain ⟨secCnt, length⟩ := fillHdr_places adapt type sev (allocEntry count)
  have fresh : field (allocEntry count) 20 4 = 0 := by
    unfold field allocEntry
    rw [read_write_outside (by simp)]
    rfl
  refine ⟨?_, ?_, ?_, ?_, ?_⟩
  · rw [secCnt]
    exact read_write_self (leBytes_length _ _)
  · rw [length, fresh]
    rfl
  all_goals
    intro i none
    exact absurd none (Nat.not_lt_zero i)

theorem descArgs_guid (content : Section type) : (descArgs content).2.2.2.length = 16 := by
  cases content <;> rfl

theorem fillSection_spec {j : Nat} (room : j < count) (content : Section type) (m : Store) :
    (∀ x, (x < 20 ∨ 24 ≤ x) → (x < secDescOffset j ∨ secDescOffset j + 72 ≤ x) →
      x < secDescOffset count → fillSection adapt count j content m x = m x) ∧
    field (fillSection adapt count j content m) 20 4 =
      (field m 20 4 + (secDescLen + type.secLen)) % 2 ^ 32 ∧
    ∀ x, secDescOffset j ≤ x → x < secDescOffset j + 12 →
      fillSection adapt count j content m x =
        fillPlaces (secDescOffset j) type.secLen (type.secOffset count j) m x := by
  have below : secDescOffset j + 72 ≤ secDescOffset count := by
    unfold secDescOffset secDescLen
    omega
  have above : 24 ≤ secDescOffset j := by
    unfold secDescOffset hdrLen
    omega
  have behind : secDescOffset count ≤ type.secOffset count j := Nat.le_add_right _ _
  have places := (fillPlaces_spec (secDescOffset j) type.secLen (type.secOffset count j) m).1
  obtain ⟨desc, texts, eqDesc⟩ : ∃ desc, SameOutside (secDescOffset j + 12) (secDescOffset j + 72)
      (fillPlaces (secDescOffset j) type.secLen (type.secOffset count j) m) desc ∧
      fillSection adapt count j content m = incEntryLength
        (fillBody adapt (type.secOffset count j) desc content) (secDescLen + type.secLen) :=
    ⟨_, fillTexts_same adapt _ _ _ _ (descArgs_guid content) _, rfl⟩
  have body := fillBody_same adapt content (type.secOffset count j) desc
  have length := incEntryLength_same (fillBody adapt (type.secOffset count j) desc content)
    (secDescLen + type.secLen)
  rw [eqDesc]
  refine ⟨?_, ?_, ?_⟩
  · intro x notLength apart inside
    rw [length x notLength, body x (by omega), texts x (by omega), places x (by omega)]
  · rw [incEntryLength_length]
    unfold field
    rw [body.read (by omega), texts.read (by omega), places.read (by omega)]
  · intro x low high
    rw [length x (by omega), body x (by omega), texts x (by omega)]

theorem Filled.fillSection {j : Nat} (filled : Filled type count j m) (few : count < 2 ^ 16)
    (room : j < count) (content : Section type) :
    Filled type count (j + 1) (fillSection adapt count j content m) := by
  obtain ⟨elsewhere, length, own⟩ := fillSection_spec adapt room content m
  obtain ⟨_, offset, secLength, fruId⟩ :=
    fillPlaces_spec (secDescOffset j) type.secLen (type.secOffset count j) m
  have short := record_short type few
  -- the descriptors before this one stay as they are
  have earlier : ∀ i < j, ∀ x < 72, Host.fillSection adapt count j content m
      (secDescOffset i + x) = m (secDescOffset i + x) := by
    intro i before x inside
    apply elsewhere <;> unfold secDescOffset hdrLen secDescLen <;> omega
  refine ⟨?_, ?_, ?_, ?_, ?_⟩
  · have same : read (Host.fillSection adapt count j content m) 10 2 = read m 10 2 := by
      apply read_congr
      intro i inside
      have early : 10 + i < secDescOffset j ∧ 10 + i < secDescOffset count := by
        unfold secDescOffset hdrLen
        omega
      exact elsewhere _ (by omega) (.inl early.1) early.2
    rw [same]
    exact filled.secCnt
  · rw [length, filled.length, Nat.add_assoc, ← Nat.mul_succ]
    apply Nat.mod_eq_of_lt
    have := Nat.mul_le_mul_left (secDescLen + type.secLen) (Nat.succ_le_of_lt room)
    omega
  · intro i before
    rcases Nat.lt_succ_iff_lt_or_eq.mp before with less | same
    · rw [← filled.offset i less]
      apply read_congr
      intro x inside
      exact earlier i less x (by omega)
    · rw [same, ← offset]
      apply read_congr
      intro x inside
      exact own _ (by omega) (by omega)
  · intro i before
    rcases Nat.lt_succ_iff_lt_or_eq.mp before with less | same
    · rw [← filled.secLength i less]
      apply read_congr
      intro x inside
      rw [Nat.add_assoc]
      exact earlier i less (4 + x) (by omega)
    · rw [same, ← secLength]
      apply read_congr
      intro x inside
      exact own _ (by omega) (by omega)
  · intro i before
    rcases Nat.lt_succ_iff_lt_or_eq.mp before with less | same
    · rw [earlier i less 10 (by decide)]
      exact filled.fruId i less
    · rw [same, own _ (by omega) (by omega)]
      exact fruId

theorem Filled.fillSections {j : Nat} (few : count < 2 ^ 16) (sections : List (Section type))
    (filled : Filled type count j m) (all : j + sections.length = count) :
    Filled type count count (fillSections adapt count j sections m) := by
  induction sections generalizing j m with
  | nil =>
    rw [List.length_nil, Nat.add_zero] at all
    exact all ▸ filled
  | cons content rest ih =>
    rw [List.length_cons] at all
    apply ih (filled.fillSection adapt few (by omega) content)
    omega

theorem buildEntry_filled (type : CperType) (sev : Severity) (sections : List (Section type))
    (few : sections.length < 2 ^ 16) :
    Filled type sections.length sections.length (buildEntry adapt type sev sections) :=
  (fillHdr_filled adapt sev).fillSections adapt few sections (Nat.zero_add _)

end Built

end Cper.Host
