import MxGpu.RasCper

/- What the builders of the RAS core leave in a buffer, and what a reader finds there. -/
namespace MxGpu.RasCper

open ByteStore Tiling Function
open Cper (hdrLen secDescLen)
open Cper.Host (vsnprintf setBits field secDescOffset fillContext)

section Fields

variable (core : Core) {m : Store}

theorem regs_length (trace : LogInfo) (idxs : List Nat) :
    (idxs.flatMap trace.reg).length = 8 * idxs.length := by
  induction idxs with
  | nil => rfl
  | cons idx idxs ih =>
    rw [List.flatMap_cons, List.length_append, ih, List.length_cons]
    unfold LogInfo.reg
    rw [read_length]
    omega

theorem notifyType_length (type : CperType) (sev : BitVec 32) :
    (notifyType type sev).length = 16 := by
  cases type with
  | runtime =>
    unfold notifyType
    dsimp only
    split
    · rfl
    · rfl
  | fatal => rfl
  | boot => rfl
  | rma => rfl

theorem setBitField_same {a b off : Nat} {m m' : Store} (same : SameOutside a b m m')
    (low : a ≤ off) (high : off < b) (mask bits : UInt8) :
    SameOutside a b m (setBitField m' off mask bits) :=
  same.write low (by rw [List.length_singleton]; omega)

theorem fillSectionHdr_spec (type : CperType) (sev : BitVec 32) (trace : LogInfo) (m : Store) :
    SameOutside 0 hdrLen m (fillSectionHdr core m type sev trace) ∧
      read (fillSectionHdr core m type sev trace) 0 4 = signature := by
  have record : ((core.recordId (trace.seqno >>> 8)).take 8).length ≤ 8 := List.length_take_le ..
  have platform := Cper.Host.vsnprintf_length (by decide : 0 < 16) core.platformId
  have creator := Cper.Host.vsnprintf_length (by decide : 0 < 16)
    [0x61, 0x6d, 0x64, 0x67, 0x70, 0x75]
  have notify := notifyType_length type sev
  constructor
  · unfold fillSectionHdr cperGetTimestamp hdrLen
    apply SameOutside.write _ (by omega) (by omega)
    apply SameOutside.write _ (by omega) (by omega)
    apply SameOutside.write _ (by omega) (by omega)
    apply SameOutside.write _ (by omega) (by omega)
    apply SameOutside.write _ (by omega) (by simp)
    apply Cper.Host.setBits_same _ (by omega) (by omega)
    apply Cper.Host.setBits_same _ (by omega) (by omega)
    apply SameOutside.write _ (by omega) (by simp)
    apply SameOutside.write _ (by omega) (by simp)
    apply SameOutside.write _ (by omega) (by simp)
    apply SameOutside.write _ (by omega) (by simp [signature])
    exact SameOutside.refl _ _ _
  · unfold fillSectionHdr cperGetTimestamp setBits
    rw [read_write_outside (by omega), read_write_outside (by omega),
      read_write_outside (by omega), read_write_outside (by omega), read_write_outside (by omega),
      read_write_outside (by omega), read_write_outside (by omega), read_write_outside (by omega),
      read_write_outside (by omega), read_write_outside (by omega)]
    exact read_write_self rfl

theorem fillSectionDescriptor_spec (desc : Nat) (sev : BitVec 32) (secType : List UInt8)
    (guid : secType.length = 16) (sectionOffset sectionLength : Nat) (m : Store) :
    SameOutside desc (desc + secDescLen) m
        (fillSectionDescriptor core m desc sev secType sectionOffset sectionLength) ∧
      read (fillSectionDescriptor core m desc sev secType sectionOffset sectionLength) desc 4 =
        leBytes 4 sectionOffset ∧
      read (fillSectionDescriptor core m desc sev secType sectionOffset sectionLength) (desc + 4) 4 =
        leBytes 4 sectionLength := by
  have fruText := Cper.Host.vsnprintf_length (by decide : 0 < 20) core.fruText
  -- what is left after the places are written
  have rest : ∀ m', ∃ after, SameOutside (desc + 8) (desc + secDescLen) m' after ∧
      after = (let m := setBits m' (desc + 10) 2
        let m := setBits m (desc + 12) 1
        let m := write m (desc + 48) (leBytes 4 (severity sev).toNat)
        let m := write m (desc + 16) secType
        let m := write m (desc + 52) (vsnprintf 20 core.fruText)
        let m := if sev = sevRma then setBits m (desc + 12) 8 else m
        if sev = sevNonFatalUe then setBits m (desc + 12) 16 else m) := by
    intro m'
    refine ⟨_, ?_, rfl⟩
    have texts : SameOutside (desc + 8) (desc + secDescLen) m' (write (write (write
        (setBits (setBits m' (desc + 10) 2) (desc + 12) 1) (desc + 48)
        (leBytes 4 (severity sev).toNat)) (desc + 16) secType) (desc + 52)
        (vsnprintf 20 core.fruText)) := by
      unfold secDescLen
      apply SameOutside.write _ (by omega) (by omega)
      apply SameOutside.write _ (by omega) (by omega)
      apply SameOutside.write _ (by omega) (by simp)
      apply Cper.Host.setBits_same _ (by omega) (by omega)
      apply Cper.Host.setBits_same _ (by omega) (by omega)
      exact SameOutside.refl _ _ _
    dsimp only
    split
    · apply Cper.Host.setBits_same _ (by omega) (by unfold secDescLen; omega)
      split
      · exact Cper.Host.setBits_same texts (by omega) (by unfold secDescLen; omega) _
      · exact texts
    · split
      · exact Cper.Host.setBits_same texts (by omega) (by unfold secDescLen; omega) _
      · exact texts
  obtain ⟨after, same, eq⟩ := rest (write (write (write (write m (desc + 8) [0x01]) (desc + 9)
    [0x22]) desc (leBytes 4 sectionOffset)) (desc + 4) (leBytes 4 sectionLength))
  have whole : fillSectionDescriptor core m desc sev secType sectionOffset sectionLength = after :=
    eq.symm
  rw [whole]
  refine ⟨?_, ?_, ?_⟩
  · apply SameOutside.trans _ (same.mono (by omega) (Nat.le_refl _))
    unfold secDescLen
    apply SameOutside.write _ (by omega) (by simp)
    apply SameOutside.write _ (by omega) (by simp)
    apply SameOutside.write _ (by omega) (by simp)
    apply SameOutside.write _ (by omega) (by simp)
    exact SameOutside.refl _ _ _
  · rw [same.read (by omega), read_write_outside (by omega)]
    exact read_write_self (leBytes_length _ _)
  · rw [same.read (by omega)]
    exact read_write_self (leBytes_length _ _)

theorem fillContext_regs {sec regCtxType regArrSize : Nat} {data : List UInt8} (m : Store) :
    read (fillContext sec regCtxType regArrSize data m) (sec + 144) data.length = data :=
  read_write_self rfl

theorem fillSectionFatal_spec (sec : Nat) (trace : LogInfo) (m : Store) :
    SameOutside sec (sec + fatalSecLen) m (fillSectionFatal m sec trace) ∧
      read (fillSectionFatal m sec trace) (sec + 144) 32 = fatalRegs trace := by
  have length : (fatalRegs trace).length = 32 := regs_length trace _
  constructor
  · exact Cper.Host.fillContext_same (SameOutside.refl _ _ _) _ _ (by rw [length]; decide)
  · rw [← length]
    exact fillContext_regs m

theorem fillSectionRuntime_spec (sec : Nat) (trace : LogInfo) (sev : BitVec 32) (m : Store) :
    SameOutside sec (sec + nonstdSecLen) m (fillSectionRuntime m sec trace sev) ∧
      read (fillSectionRuntime m sec trace sev) (sec + 144) 56 = runtimeRegs trace := by
  have length : (runtimeRegs trace).length = 56 := regs_length trace _
  constructor
  · apply Cper.Host.fillContext_same _ _ _ (by rw [length]; decide)
    have described : SameOutside sec (sec + nonstdSecLen) m (setBits (write (setBitField
        (setBitField m sec 0xfc 0x04) (sec + 1) 0x3f 0x01) (sec + 64) Cper.Host.runtime)
        (sec + 88) 1) := by
      unfold nonstdSecLen
      apply Cper.Host.setBits_same _ (by omega) (by omega)
      apply SameOutside.write _ (by omega) (by simp [Cper.Host.runtime, Cper.Host.guidInit])
      apply setBitField_same _ (by omega) (by omega)
      apply setBitField_same _ (by omega) (by omega)
      exact SameOutside.refl _ _ _
    split
    · unfold nonstdSecLen at described ⊢
      apply Cper.Host.setBits_same _ (by omega) (by omega)
      apply setBitField_same _ (by omega) (by omega)
      exact Cper.Host.setBits_same described (by omega) (by omega) _
    · exact described
  · rw [← length]
    exact fillContext_regs _

end Fields

section Runtime

variable (core : Core) {traceArr : Nat → LogInfo} {count j : Nat} {buf m : Store}

theorem field_of_read {off width value : Nat} (kept : read m off width = leBytes width value)
    (fits : value < 256 ^ width) : field m off width = value := by
  unfold field
  rw [kept, ofLe_leBytes]
  exact Nat.mod_eq_of_lt fits

/-- A runtime record of which the header and the first `j` sections are filled. -/
structure RuntimeFilled (traceArr : Nat → LogInfo) (count j : Nat) (buf m : Store) : Prop where
  outside : SameOutside 0 (runtimeRecord count).length buf m
  signature : read m 0 4 = signature
  sectionCount : field m 10 2 = count
  recordLength : field m 20 4 = (runtimeRecord count).length
  described : ∀ i < j, field m (secDescOffset i) 4 = nonstdSecOffset count i ∧
    field m (secDescOffset i + 4) 4 = nonstdSecLen
  regs : ∀ i < j, read m (nonstdSecOffset count i + 144) 56 = runtimeRegs (traceArr i)

theorem runtimeHeader_filled (few : count < 2 ^ 16) (sev : BitVec 32) (trace : LogInfo) :
    RuntimeFilled traceArr count 0 buf (write (write (fillSectionHdr core buf .runtime sev trace) 20
      (leBytes 4 (hdrLen + (secDescLen + nonstdSecLen) * count))) 10 (leBytes 2 count)) := by
  obtain ⟨header, signature⟩ := fillSectionHdr_spec core .runtime sev trace buf
  have long : hdrLen ≤ (runtimeRecord count).length := Nat.le_add_right _ _
  have short : (runtimeRecord count).length < 256 ^ 4 := by
    change 128 + (72 + 272) * count < 256 ^ 4
    omega
  have lengthBytes := leBytes_length 4 (hdrLen + (secDescLen + nonstdSecLen) * count)
  have countBytes := leBytes_length 2 count
  refine ⟨?_, ?_, ?_, ?_, ?_, ?_⟩
  · unfold hdrLen at long
    apply SameOutside.write _ (by omega) (by omega)
    apply SameOutside.write _ (by omega) (by omega)
    exact header.mono (Nat.le_refl _) long
  · rw [read_write_outside (by omega), read_write_outside (by omega), signature]
  · exact field_of_read (read_write_self countBytes) few
  · apply field_of_read _ short
    rw [read_write_outside (by omega)]
    exact read_write_self lengthBytes
  · intro i none
    exact absurd none (Nat.not_lt_zero i)
  · intro i none
    exact absurd none (Nat.not_lt_zero i)

theorem RuntimeFilled.section (filled : RuntimeFilled traceArr count j buf m) (few : count < 2 ^ 16)
    (room : j < count) (sev : BitVec 32) :
    RuntimeFilled traceArr count (j + 1) buf (fillSectionRuntime (fillSectionDescriptor core m
      (secDescOffset j) sev Cper.Host.runtime (nonstdSecOffset count j) nonstdSecLen)
      (nonstdSecOffset count j) (traceArr j) sev) := by
  have descSize : secDescLen = 72 := rfl
  have nonstdSize : nonstdSecLen = 272 := rfl
  obtain ⟨inDescriptor, offset, length⟩ := fillSectionDescriptor_spec core (secDescOffset j) sev
    Cper.Host.runtime rfl (nonstdSecOffset count j) nonstdSecLen m
  generalize fillSectionDescriptor core _ _ _ _ _ _ = described at inDescriptor offset length ⊢
  obtain ⟨inSection, regs⟩ :=
    fillSectionRuntime_spec (nonstdSecOffset count j) (traceArr j) sev described
  generalize fillSectionRuntime described _ _ _ = built at inSection regs ⊢
  have places : ∀ i, secDescOffset i = 128 + 72 * i ∧
      nonstdSecOffset count i = 128 + 72 * count + 272 * i := fun i => ⟨rfl, rfl⟩
  have whole : (runtimeRecord count).length = 128 + (72 + 272) * count := rfl
  obtain ⟨descriptorAt, sectionAt⟩ := places j
  -- what is read in front of the descriptor, behind it, or before the section
  have kept : ∀ at_ n, at_ + n ≤ secDescOffset j ∨
      secDescOffset j + secDescLen ≤ at_ ∧ at_ + n ≤ nonstdSecOffset count j →
      read built at_ n = read m at_ n := by
    intro at_ n apart
    rw [inSection.read (by omega), inDescriptor.read (by omega)]
  refine ⟨?_, ?_, ?_, ?_, ?_, ?_⟩
  · apply filled.outside.trans
    apply SameOutside.trans (inDescriptor.mono (by omega) (by omega))
    exact inSection.mono (by omega) (by omega)
  · rw [kept _ _ (by omega)]
    exact filled.signature
  · unfold field
    rw [kept _ _ (by omega)]
    exact filled.sectionCount
  · unfold field
    rw [kept _ _ (by omega)]
    exact filled.recordLength
  · intro i before
    obtain ⟨atI, -⟩ := places i
    rcases Nat.lt_succ_iff_lt_or_eq.mp before with less | rfl
    · have earlier := filled.described i less
      unfold field at earlier ⊢
      rw [kept _ _ (by omega), kept _ _ (by omega)]
      exact earlier
    · constructor
      · apply field_of_read _ (by omega)
        rw [inSection.read (by omega)]
        exact offset
      · apply field_of_read _ (by decide)
        rw [inSection.read (by omega)]
        exact length
  · intro i before
    obtain ⟨-, atI⟩ := places i
    rcases Nat.lt_succ_iff_lt_or_eq.mp before with less | rfl
    · rw [kept _ _ (by omega)]
      exact filled.regs i less
    · exact regs

theorem RuntimeFilled.sections (filled : RuntimeFilled traceArr count 0 buf m)
    (few : count < 2 ^ 16) (sev : BitVec 32) (room : j ≤ count) :
    RuntimeFilled traceArr count j buf (runtimeSections core traceArr sev m j) := by
  induction j with
  | zero => exact filled
  | succ j ih =>
    have before := ih (by omega)
    unfold runtimeSections
    dsimp only
    rw [before.sectionCount]
    exact before.section core few room sev

theorem nonstd_laid (count done : Nat) (start : Nat) :
    Laid (· = ·) ((List.range' done count).map fun i => (start + nonstdSecLen * i, nonstdSecLen))
      (start + nonstdSecLen * done) (start + nonstdSecLen * (done + count)) := by
  induction count generalizing done with
  | zero => rfl
  | succ count ih =>
    refine ⟨rfl, ?_⟩
    have next := ih (done + 1)
    rw [Nat.mul_add, Nat.mul_one, ← Nat.add_assoc, Nat.add_right_comm done 1 count] at next
    exact next

theorem RuntimeFilled.recordAt (filled : RuntimeFilled traceArr count count buf m) :
    RecordAt m 0 (runtimeRecord count) := by
  have many : (runtimeRecord count).sections.length = count := by
    unfold runtimeRecord
    rw [List.length_map, List.length_range]
  refine ⟨filled.signature, ?_, ?_, ?_, ?_⟩
  · rw [many, Nat.zero_add]
    exact filled.sectionCount
  · rw [Nat.zero_add]
    exact filled.recordLength
  · intro i span listed
    unfold runtimeRecord at listed
    dsimp only at listed
    rw [List.getElem?_map, Option.map_eq_some_iff] at listed
    obtain ⟨i', inside, rfl⟩ := listed
    obtain ⟨less, rfl⟩ := List.getElem?_eq_some_iff.mp inside
    rw [List.length_range] at less
    rw [List.getElem_range, Nat.zero_add]
    exact filled.described i less
  · rw [many]
    have laid := nonstd_laid count 0 (hdrLen + secDescLen * count)
    rw [Nat.mul_zero, Nat.add_zero, Nat.zero_add, ← List.range_eq_range'] at laid
    have whole : (runtimeRecord count).length =
        hdrLen + secDescLen * count + nonstdSecLen * count := by
      change hdrLen + (secDescLen + nonstdSecLen) * count = _
      rw [Nat.add_mul, Nat.add_assoc]
    rw [whole]
    exact laid

end Runtime

section Fatal

variable (core : Core) {traceArr : Nat → LogInfo} {count j : Nat} {buf m : Store}

/-- A fatal record with the registers of its event. -/
structure FatalAt (m : Store) (off : Nat) (trace : LogInfo) : Prop where
  recordAt : RecordAt m off fatalRecord
  regs : read m (off + (hdrLen + secDescLen) + 144) 32 = fatalRegs trace

theorem FatalAt.move {m' : Store} {off off' : Nat} {trace : LogInfo} (fatal : FatalAt m off trace)
    (same : ∀ x < fatalRecord.length, m' (off' + x) = m (off + x)) : FatalAt m' off' trace := by
  have moved : ∀ x n, x + n ≤ fatalRecord.length → read m' (off' + x) n = read m (off + x) n := by
    intro x n inside
    apply read_shift
    intro i less
    rw [Nat.add_assoc, Nat.add_assoc]
    exact same _ (by omega)
  have whole : fatalRecord.length = 376 := rfl
  have start : secDescOffset 0 = 128 := rfl
  obtain ⟨⟨signature, sectionCount, recordLength, described, laid⟩, regs⟩ := fatal
  refine ⟨⟨?_, ?_, ?_, ?_, laid⟩, ?_⟩
  · rw [← signature]
    exact moved 0 4 (by omega)
  · rw [← sectionCount]
    exact congrArg ofLe (moved 10 2 (by omega))
  · rw [← recordLength]
    exact congrArg ofLe (moved 20 4 (by omega))
  · intro i span listed
    have first : i = 0 := by
      have less := (List.getElem?_eq_some_iff.mp listed).1
      change i < 1 at less
      omega
    subst first
    obtain ⟨offset, length⟩ := described 0 span listed
    rw [← offset, ← length]
    constructor
    · exact congrArg ofLe (moved _ 4 (by omega))
    · rw [Nat.add_assoc, Nat.add_assoc]
      exact congrArg ofLe (moved _ 4 (by omega))
  · rw [← regs, Nat.add_assoc, Nat.add_assoc]
    exact moved _ 32 (by decide)

theorem fatalRecord_built (record : Store) (trace : LogInfo) :
    FatalAt (fillSectionFatal (fillSectionDescriptor core (write (write (fillSectionHdr core record
      .fatal sevFatalUe trace) 20 (leBytes 4 (hdrLen + secDescLen + fatalSecLen))) 10 (leBytes 2 1))
      hdrLen sevFatalUe Cper.Host.crashdump (hdrLen + secDescLen) fatalSecLen)
      (hdrLen + secDescLen) trace) 0 trace := by
  obtain ⟨-, signature⟩ := fillSectionHdr_spec core .fatal sevFatalUe trace record
  generalize fillSectionHdr core record .fatal sevFatalUe trace = header at signature ⊢
  have lengthBytes := leBytes_length 4 (hdrLen + secDescLen + fatalSecLen)
  have countBytes := leBytes_length 2 1
  obtain ⟨inDescriptor, offset, length⟩ := fillSectionDescriptor_spec core hdrLen sevFatalUe
    Cper.Host.crashdump rfl (hdrLen + secDescLen) fatalSecLen (write (write header 20
      (leBytes 4 (hdrLen + secDescLen + fatalSecLen))) 10 (leBytes 2 1))
  generalize fillSectionDescriptor core _ _ _ _ _ _ = described at inDescriptor offset length ⊢
  obtain ⟨inSection, regs⟩ := fillSectionFatal_spec (hdrLen + secDescLen) trace described
  generalize fillSectionFatal described _ trace = built at inSection regs ⊢
  have sizes : hdrLen = 128 ∧ secDescLen = 72 := ⟨rfl, rfl⟩
  obtain ⟨header128, desc72⟩ := sizes
  refine ⟨⟨?_, ?_, ?_, ?_, ⟨rfl, rfl⟩⟩, ?_⟩
  · rw [inSection.read (by omega), inDescriptor.read (by omega), read_write_outside (by omega),
      read_write_outside (by omega)]
    exact signature
  · apply field_of_read _ (by decide)
    rw [inSection.read (by omega), inDescriptor.read (by omega)]
    exact read_write_self countBytes
  · apply field_of_read _ (by decide)
    rw [inSection.read (by omega), inDescriptor.read (by omega), read_write_outside (by omega)]
    exact read_write_self lengthBytes
  · intro i span listed
    cases i with
    | succ i => cases listed
    | zero =>
      cases listed
      constructor
      · apply field_of_read _ (by decide)
        rw [inSection.read (by unfold secDescOffset; omega)]
        exact offset
      · apply field_of_read _ (by decide)
        rw [inSection.read (by unfold secDescOffset; omega)]
        exact length
  · rw [Nat.zero_add]
    exact regs

theorem fatalRecords_filled (j : Nat) :
    SameOutside 0 (j * fatalRecord.length) buf (fatalRecords core traceArr buf j).2 ∧
      ∀ i < j, FatalAt (fatalRecords core traceArr buf j).2 (i * fatalRecord.length)
        (traceArr i) := by
  induction j with
  | zero => exact ⟨SameOutside.refl _ _ _, fun i none => absurd none (Nat.not_lt_zero i)⟩
  | succ j ih =>
    obtain ⟨outside, earlier⟩ := ih
    have built := fatalRecord_built core (fatalRecords core traceArr buf j).1 (traceArr j)
    have length := built.recordAt.recordLength
    unfold fatalRecords
    dsimp only at length ⊢
    rw [Nat.zero_add] at length
    rw [length]
    generalize fillSectionFatal _ _ (traceArr j) = record at built ⊢
    have next : (j + 1) * fatalRecord.length = j * fatalRecord.length + fatalRecord.length :=
      Nat.succ_mul ..
    constructor
    · apply SameOutside.write _ (Nat.zero_le _) (by rw [read_length]; omega)
      exact outside.mono (Nat.le_refl _) (by omega)
    · intro i before
      rcases Nat.lt_succ_iff_lt_or_eq.mp before with less | rfl
      · apply (earlier i less).move
        intro x inside
        apply write_outside
        have step := Nat.mul_le_mul_right fatalRecord.length (Nat.succ_le_of_lt less)
        rw [Nat.succ_mul] at step
        omega
      · apply built.move
        intro x inside
        exact write_read_inside inside

theorem fatal_parses {m : Store}
    (there : ∀ i < count, RecordAt m (i * fatalRecord.length) fatalRecord) :
    ∀ left done, done + left = count → Parses m (done * fatalRecord.length)
      (List.replicate left fatalRecord) (count * fatalRecord.length) := by
  intro left
  induction left with
  | zero =>
    rintro done rfl
    rfl
  | succ left ih =>
    intro done all
    refine ⟨there done (by omega), ?_⟩
    rw [← Nat.succ_mul]
    exact ih (done + 1) (by omega)

end Fatal

def Known (event : LogEvent) : Prop :=
  event = .ue ∨ event = .de ∨ event = .ce ∨ event = .rma

theorem size_eq {event : LogEvent} {count : BitVec 32} (known : Known event)
    (few : count.toNat < 2 ^ 16) :
    cperGetRecordSize (cperRasLogEventToCperType event) (count.setWidth 16) =
      ((records event count.toNat).map Record.length).sum := by
  have same : (count.setWidth 16).toNat = count.toNat := by
    rw [BitVec.toNat_setWidth]
    exact Nat.mod_eq_of_lt few
  have sizes : hdrLen = 128 ∧ secDescLen = 72 ∧ nonstdSecLen = 272 ∧ fatalSecLen = 176 :=
    ⟨rfl, rfl, rfl, rfl⟩
  obtain ⟨header, desc, nonstd, fatal⟩ := sizes
  have one : ((runtimeRecord count.toNat).length : Int) = 128 + (72 + 272) * count.toNat := rfl
  unfold cperGetRecordSize
  rw [same, header, desc]
  rcases known with rfl | rfl | rfl | rfl
  · have all : ((List.replicate count.toNat fatalRecord).map Record.length).sum =
        count.toNat * 376 := by
      rw [List.map_replicate, List.sum_replicate_nat]
      rfl
    unfold cperRasLogEventToCperType records
    dsimp only
    rw [all, fatal]
    omega
  all_goals
    unfold cperRasLogEventToCperType records
    dsimp only
    rw [List.map_singleton, List.sum_singleton, one, nonstd]
    omega

theorem size_nonneg (type : CperType) (sectionCount : BitVec 16) :
    0 ≤ cperGetRecordSize type sectionCount := by
  have sizes : hdrLen = 128 ∧ secDescLen = 72 ∧ nonstdSecLen = 272 ∧ fatalSecLen = 176 ∧
      bootSecLen = 208 := ⟨rfl, rfl, rfl, rfl, rfl⟩
  obtain ⟨header, desc, nonstd, fatal, boot⟩ := sizes
  unfold cperGetRecordSize
  rw [header, desc, nonstd, fatal, boot]
  cases type
  all_goals
    dsimp only
    omega

/-- What a reader finds in a buffer: the records of a batch up to `last`, and in their sections the
registers of the events. -/
structure Holds (event : LogEvent) (traceList : Nat → LogInfo) (count : Nat) (m : Store)
    (last : Nat) : Prop where
  parses : Parses m 0 (records event count) last
  regs : ∀ i < count, read m (sectionPlace event count i + 144)
    (sectionRegs event (traceList i)).length = sectionRegs event (traceList i)

section Batches

variable {core : Core} {traceList : Nat → LogInfo} {count : Nat} {buf : Store}

theorem runtime_holds (few : count < 2 ^ 16) (sev : BitVec 32) {event : LogEvent}
    (other : event ≠ .ue) :
    SameOutside 0 (runtimeRecord count).length buf
        (cperGenerateRuntimeRecord core traceList buf count sev) ∧
      Holds event traceList count (cperGenerateRuntimeRecord core traceList buf count sev)
        (runtimeRecord count).length := by
  have header : RuntimeFilled traceList count 0 buf _ :=
    runtimeHeader_filled core few sev (traceList 0)
  have filled := header.sections core few sev (Nat.le_refl count)
  have one : records event count = [runtimeRecord count] := by
    cases event with
    | ue => exact absurd rfl other
    | _ => rfl
  have places : ∀ i, sectionPlace event count i = nonstdSecOffset count i ∧
      sectionRegs event (traceList i) = runtimeRegs (traceList i) := by
    intro i
    cases event with
    | ue => exact absurd rfl other
    | _ => exact ⟨rfl, rfl⟩
  refine ⟨filled.outside, ?_, fun i inside => ?_⟩
  · rw [one]
    exact ⟨filled.recordAt, Nat.zero_add _⟩
  · obtain ⟨place, regs⟩ := places i
    have length : (runtimeRegs (traceList i)).length = 56 := regs_length _ _
    rw [place, regs, length]
    exact filled.regs i inside

theorem fatal_holds : SameOutside 0 (count * fatalRecord.length) buf
      (cperGenerateFatalRecord core traceList buf count) ∧
    Holds .ue traceList count (cperGenerateFatalRecord core traceList buf count)
      (count * fatalRecord.length) := by
  have filled : SameOutside 0 _ buf (fatalRecords core traceList buf count).2 ∧ _ :=
    fatalRecords_filled core count
  obtain ⟨outside, there⟩ := filled
  refine ⟨outside, ?_, fun i inside => ?_⟩
  · have parses := fatal_parses (fun i inside => (there i inside).recordAt) count 0 (Nat.zero_add _)
    rw [Nat.zero_mul] at parses
    exact parses
  · have length : (fatalRegs (traceList i)).length = 32 := regs_length _ _
    unfold sectionRegs sectionPlace
    dsimp only
    rw [length]
    exact (there i inside).regs

end Batches

theorem sectionRegs_update (event event' : LogEvent) (traceList : Nat → LogInfo) (i : Nat) :
    sectionRegs event (update traceList 0 { traceList 0 with event := event' } i) =
      sectionRegs event (traceList i) := by
  by_cases first : i = 0
  · subst first
    rw [update_self]
    cases event with
    | _ => rfl
  · rw [update_of_ne first]

theorem Holds.update {event event' : LogEvent} {traceList : Nat → LogInfo} {count last : Nat}
    {m : Store} (holds : Holds event
      (update traceList 0 { traceList 0 with event := event' }) count m last) :
    Holds event traceList count m last := by
  refine ⟨holds.parses, fun i inside => ?_⟩
  have regs := holds.regs i inside
  rw [sectionRegs_update] at regs
  exact regs

theorem generate_known (core : Core) (traceList : Nat → LogInfo) {count : BitVec 32} (buf : Store)
    {event : LogEvent} (known : Known event) (few : count.toNat < 2 ^ 16) {last : Nat}
    (total : last = ((records event count.toNat).map Record.length).sum) :
    let filled := match event with
      | .rma => cperGenerateRuntimeRecord core traceList buf count.toNat sevRma
      | .de => cperGenerateRuntimeRecord core traceList buf count.toNat sevNonFatalUe
      | .ce => cperGenerateRuntimeRecord core traceList buf count.toNat sevNonFatalCe
      | .ue => cperGenerateFatalRecord core traceList buf count.toNat
      | .boot => cperGenerateBootRecord core traceList buf count.toNat
      | _ => buf
    SameOutside 0 last buf filled ∧ Holds event traceList count.toNat filled last := by
  subst total
  rcases known with rfl | rfl | rfl | rfl
  · have all : ((records .ue count.toNat).map Record.length).sum =
        count.toNat * fatalRecord.length := by
      unfold records
      dsimp only
      rw [List.map_replicate, List.sum_replicate_nat]
    rw [all]
    exact fatal_holds
  all_goals exact runtime_holds few _ nofun

/-- A call that fails leaves the buffer and the length alone; one that succeeds reports the size of
the size pass, which fits the buffer. For the events that both passes know, nothing is written beyond
the reported length, and up to there are the records of the batch with the data of its events. -/
theorem ras_cper_generate_cper_spec (core : Core) (traceList : Nat → LogInfo)
    (count bufLen realDataLen : BitVec 32) (buf : Store) :
    let event := batchEvent core traceList
    let result := rasCperGenerateCper core traceList count buf bufLen realDataLen
    (result.status ≠ 0 → result.buf = buf ∧ result.realDataLen = realDataLen) ∧
      (result.status = 0 →
        (result.realDataLen.toNat : Int) =
          cperGetRecordSize (cperRasLogEventToCperType event) (count.setWidth 16) ∧
        result.realDataLen.toNat ≤ bufLen.toNat ∧
        (Known event → count.toNat < 2 ^ 16 →
          SameOutside 0 result.realDataLen.toNat buf result.buf ∧
          Holds event traceList count.toNat result.buf result.realDataLen.toNat)) := by
  intro event result
  have nonneg := size_nonneg (cperRasLogEventToCperType event) (count.setWidth 16)
  have bounded := bufLen.isLt
  by_cases large : cperGetRecordSize (cperRasLogEventToCperType event) (count.setWidth 16) >
      bufLen.toNat
  · have failed : result = ⟨rasCoreEnomem, _, buf, realDataLen⟩ := if_pos large
    rw [failed]
    refine ⟨fun _ => ⟨rfl, rfl⟩, fun success => ?_⟩
    exact absurd success (by decide : rasCoreEnomem ≠ 0)
  · have done : result = ⟨0, _, _, BitVec.ofInt 32 (cperGetRecordSize
        (cperRasLogEventToCperType event) (count.setWidth 16))⟩ := if_neg large
    have size : ((BitVec.ofInt 32 (cperGetRecordSize (cperRasLogEventToCperType event)
        (count.setWidth 16))).toNat : Int) =
          cperGetRecordSize (cperRasLogEventToCperType event) (count.setWidth 16) := by
      rw [BitVec.toNat_ofInt]
      omega
    rw [done]
    refine ⟨fun failed => absurd rfl failed, fun _ => ⟨size, ?_, fun known few => ?_⟩⟩
    · dsimp only
      omega
    · have total := size_eq known few
      rw [← size] at total
      obtain ⟨outside, holds⟩ := generate_known core _ buf known few
        (Int.ofNat_inj.mp total)
      exact ⟨outside, holds.update⟩

def plainCore : Core where
  recordId _ := []
  platformId := []
  fruText := []
  timestamp _ := ⟨0, 0, 0, 0, 0, 0, 0⟩
  parseBank _ := none
  zallocOk := true

def plainInfo (event : LogEvent) : LogInfo := ⟨0, 0, event, fun _ => 0⟩

/-- A corrected and an uncorrected error of which there are two. -/
theorem ras_cper_generate_cper_spec_two :
    Holds .ce (fun _ => plainInfo .ce) 2 (rasCperGenerateCper plainCore (fun _ => plainInfo .ce) 2
      (fun _ => 0) 1000 0).buf 816 ∧
    Holds .ue (fun _ => plainInfo .ue) 2 (rasCperGenerateCper plainCore (fun _ => plainInfo .ue) 2
      (fun _ => 0) 1000 0).buf 752 := by
  have corrected := ras_cper_generate_cper_spec plainCore (fun _ => plainInfo .ce) 2 1000 0
    (fun _ => 0)
  have uncorrected := ras_cper_generate_cper_spec plainCore (fun _ => plainInfo .ue) 2 1000 0
    (fun _ => 0)
  constructor
  · obtain ⟨-, -, known⟩ := corrected.2 rfl
    exact (known (.inr (.inr (.inl rfl))) (by decide)).2
  · obtain ⟨-, -, known⟩ := uncorrected.2 rfl
    exact (known (.inl rfl) (by decide)).2

/-- The two errors of a fatal batch are two records, and not one. -/
theorem fatal_batch_two_records :
    ¬ ∀ core traceList count buf bufLen realDataLen,
      let result := rasCperGenerateCper core traceList count buf bufLen realDataLen
      result.status = 0 → ∃ record, Parses result.buf 0 [record] result.realDataLen.toNat := by
  intro one
  obtain ⟨record, there, whole⟩ := one plainCore (fun _ => plainInfo .ue) 2 (fun _ => 0) 1000 0 rfl
  have two : Holds .ue _ 2 (cperGenerateFatalRecord plainCore (fun _ => plainInfo .ue)
    (fun _ => 0) 2) _ := fatal_holds.2
  have short := two.parses.1.recordLength
  have long := there.recordLength
  have same : record.length = fatalRecord.length := long.symm.trans short
  rw [Nat.zero_add, same] at whole
  have all : fatalRecord.length = 752 := whole
  exact absurd all (by decide)

end MxGpu.RasCper
