import MxGpu.CperWriters

/- How a record of the ring is copied for a VF: `amdgv_cper_patch_to_vf` changes it in place,
copies it piece by piece, and puts back what it has changed. -/
namespace Cper.Host

open ByteStore List

/-- The record in the host's ring, the memory of the VF, the checksum, and how many copies have
been tried. -/
structure State where
  host : Store
  vf : Store
  checksum : BitVec 32
  copies : Nat

/-- Which copies fail, and what a failing one leaves of the VF's memory. -/
abbrev Failures := Nat → Option (Store → Store)

def byteSum (bytes : List UInt8) : Nat := (bytes.map UInt8.toNat).sum

section Functions

variable (fails : Failures)

/-- `amdgv_vfmgr_copy_and_calc_checksum_to_vf_fb`; the answer is whether it returns zero. -/
def copyAndCalcChecksum (offset : Nat) (buf : List UInt8) (s : State) : Bool × State :=
  let checksum := s.checksum + BitVec.ofNat 32 (byteSum buf)
  match fails s.copies with
  | some spoil => (false, { s with checksum, copies := s.copies + 1, vf := spoil s.vf })
  | none =>
    (true, { s with checksum, copies := s.copies + 1, vf := write s.vf (offset % 2 ^ 64) buf })

def patchHdr (host : Store) (secCount recordLength : Nat) : Store :=
  write (write host 10 (leBytes 2 secCount)) 20 (leBytes 4 recordLength)

def patchToVfHdr (fbOffset newSecCount newRecordLength : Nat) (s : State) : Bool × State :=
  let saveSecCount := field s.host 10 2
  let saveRecordLength := field s.host 20 4
  let s := { s with host := patchHdr s.host newSecCount newRecordLength }
  let (ok, s) := copyAndCalcChecksum fails fbOffset (read s.host 0 hdrLen) s
  (ok, { s with host := patchHdr s.host saveSecCount saveRecordLength })

def patchDesc (host : Store) (desc newSecOffset : Nat) : Store :=
  let host := write host (desc + 10) [host (desc + 10) &&& 0xfe]
  let host := write host (desc + 32) (replicate 16 0)
  write host desc (leBytes 4 newSecOffset)

/-- What `amdgv_cper_patch_to_vf_desc` puts back. -/
def restoreDesc (host : Store) (desc : Nat) (saveFruId : List UInt8) (saveSecOffset : Nat) :
    Store :=
  let host := setBits host (desc + 10) 1
  let host := write host (desc + 32) saveFruId
  write host desc (leBytes 4 saveSecOffset)

def patchToVfDesc (fbOffset desc newSecOffset : Nat) (s : State) : Bool × State :=
  let saveSecOffset := field s.host desc 4
  let saveFruId := read s.host (desc + 32) 16
  let s := { s with host := patchDesc s.host desc newSecOffset }
  let (ok, s) := copyAndCalcChecksum fails fbOffset (read s.host desc secDescLen) s
  (ok, { s with host := restoreDesc s.host desc saveFruId saveSecOffset })

def patchToVfSection (fbOffset : Nat) (buf : List UInt8) (s : State) : Bool × State :=
  copyAndCalcChecksum fails fbOffset buf s

def patchAllowed (fbOffset i writeCount nextSecOffset : Nat) (s : State) : Bool × State :=
  let desc := secDescOffset i
  let (ok, s) := patchToVfSection fails (fbOffset + nextSecOffset)
    (read s.host (field s.host desc 4) (field s.host (desc + 4) 4)) s
  if ok then
    patchToVfDesc fails (fbOffset + hdrLen + secDescLen * writeCount) desc nextSecOffset s
  else (false, s)

structure Looped where
  ok : Bool
  state : State
  writeCount : Nat
  nextSecOffset : Nat

/-- The loop over the sections; `sec_cnt` is read again at each turn, and has 16 bits. -/
def patchSections (allowed : Nat → Bool) (fbOffset : Nat) :
    Nat → Nat → Nat → Nat → State → Looped
  | 0, _, writeCount, nextSecOffset, s => ⟨true, s, writeCount, nextSecOffset⟩
  | fuel + 1, i, writeCount, nextSecOffset, s =>
    if i < field s.host 10 2 then
      if allowed i then
        let (ok, s) := patchAllowed fails fbOffset i writeCount nextSecOffset s
        if ok then
          patchSections allowed fbOffset fuel (i + 1) (writeCount + 1)
            ((nextSecOffset + field s.host (secDescOffset i + 4) 4) % 2 ^ 32) s
        else ⟨false, s, writeCount, nextSecOffset⟩
      else patchSections allowed fbOffset fuel (i + 1) writeCount nextSecOffset s
    else ⟨true, s, writeCount, nextSecOffset⟩

/-- What `amdgv_cper_patch_to_vf` returns, with the place of the next record. -/
structure Patched where
  ok : Bool
  state : State
  fbOffset : Nat

def patchToVf (allowed : Nat → Bool) (allowedCount fbOffset : Nat) (s : State) : Patched :=
  if allowedCount = 0 then ⟨true, s, fbOffset⟩
  else
    let looped := patchSections fails allowed fbOffset (2 ^ 16) 0 0
      ((hdrLen + secDescLen * allowedCount) % 2 ^ 32) s
    if looped.ok then
      let (ok, s) := patchToVfHdr fails fbOffset looped.writeCount looped.nextSecOffset looped.state
      if ok then ⟨true, s, (fbOffset + looped.nextSecOffset) % 2 ^ 64⟩ else ⟨false, s, fbOffset⟩
    else ⟨false, looped.state, fbOffset⟩

end Functions

def kept (allowed : Nat → Bool) (count : Nat) : List Nat := (range count).filter allowed

/-- The `len` bytes at `base` are a record with these sections of the host's record: each has the
place that its descriptor gives and the bytes of the host's section, no two share a byte, and the
FRU ids are gone. All other fields are the host's. -/
structure Record (host vf : Store) (base len : Nat) (sections : List Nat) : Prop where
  secCnt : field vf (base + 10) 2 = sections.length
  recordLength : field vf (base + 20) 4 = len
  body : ∀ k i, sections[k]? = some i →
    field vf (base + secDescOffset k + 4) 4 = field host (secDescOffset i + 4) 4 ∧
      read vf (base + field vf (base + secDescOffset k) 4)
          (field vf (base + secDescOffset k + 4) 4) =
        read host (field host (secDescOffset i) 4) (field host (secDescOffset i + 4) 4)
  inside : ∀ k < sections.length,
    secDescOffset sections.length ≤ field vf (base + secDescOffset k) 4 ∧
      field vf (base + secDescOffset k) 4 + field vf (base + secDescOffset k + 4) 4 ≤ len
  apart : ∀ k l, k < l → l < sections.length →
    field vf (base + secDescOffset k) 4 + field vf (base + secDescOffset k + 4) 4 ≤
      field vf (base + secDescOffset l) 4
  fruId : ∀ k < sections.length, vf (base + secDescOffset k + 10) &&& 1 = 0 ∧
    read vf (base + secDescOffset k + 32) 16 = replicate 16 0
  hdr : ∀ x < hdrLen, x < 10 ∨ 12 ≤ x → x < 20 ∨ 24 ≤ x → vf (base + x) = host x
  desc : ∀ k i x, sections[k]? = some i → 4 ≤ x → x < secDescLen → x ≠ 10 → x < 32 ∨ 48 ≤ x →
    vf (base + secDescOffset k + x) = host (secDescOffset i + x)

section Restores

variable (fails : Failures)

theorem leBytes_field (m : Store) (off width : Nat) :
    leBytes width (field m off width) = read m off width := by
  have bytes := leBytes_ofLe (read m off width)
  rwa [read_length] at bytes

section Copy

variable (offset : Nat) (buf : List UInt8) (s : State)

@[simp] theorem copyAndCalcChecksum_host :
    (copyAndCalcChecksum fails offset buf s).2.host = s.host := by
  unfold copyAndCalcChecksum
  cases fails s.copies <;> rfl

@[simp] theorem copyAndCalcChecksum_checksum :
    (copyAndCalcChecksum fails offset buf s).2.checksum =
      s.checksum + BitVec.ofNat 32 (byteSum buf) := by
  unfold copyAndCalcChecksum
  cases fails s.copies <;> rfl

theorem copyAndCalcChecksum_vf (ok : (copyAndCalcChecksum fails offset buf s).1 = true) :
    (copyAndCalcChecksum fails offset buf s).2.vf = write s.vf (offset % 2 ^ 64) buf := by
  unfold copyAndCalcChecksum at *
  cases failed : fails s.copies with
  | none => rfl
  | some spoil => simp [failed] at ok

end Copy

theorem patchHdr_same (host : Store) (secCount recordLength : Nat) {x : Nat}
    (secCnt : x < 10 ∨ 12 ≤ x) (length : x < 20 ∨ 24 ≤ x) :
    patchHdr host secCount recordLength x = host x := by
  unfold patchHdr
  rw [write_outside (by simpa using length), write_outside (by simpa using secCnt)]

theorem patchHdr_restored (host : Store) (secCount recordLength : Nat) :
    patchHdr (patchHdr host secCount recordLength) (field host 10 2) (field host 20 4) = host := by
  show write (write _ 10 (leBytes 2 (field host 10 2))) 20 (leBytes 4 (field host 20 4)) = host
  rw [leBytes_field, leBytes_field]
  apply SameOutside.restored
  intro x outside
  by_cases inside : 10 ≤ x ∧ x < 12
  · obtain ⟨k, rfl⟩ := Nat.exists_eq_add_of_le inside.1
    exact write_read_inside (by omega)
  · rw [write_outside (by rw [read_length]; omega)]
    exact patchHdr_same host _ _ (by omega) (by omega)

theorem patchToVfHdr_host (fbOffset newSecCount newRecordLength : Nat) (s : State) :
    (patchToVfHdr fails fbOffset newSecCount newRecordLength s).2.host = s.host := by
  show patchHdr (copyAndCalcChecksum fails fbOffset _ _).2.host _ _ = s.host
  rw [copyAndCalcChecksum_host]
  exact patchHdr_restored s.host _ _

theorem bit_back (b : UInt8) (set : b &&& 1 = 1) : (b &&& 0xfe) ||| 1 = b := by
  have parts : (b &&& 0xfe) ||| (b &&& 1) = b := by
    apply UInt8.eq_of_toBitVec_eq
    show (b.toBitVec &&& 0xfe) ||| (b.toBitVec &&& 1) = b.toBitVec
    rw [← BitVec.and_or_distrib_left]
    exact BitVec.and_allOnes
  rwa [set] at parts

theorem patchDesc_same (host : Store) (desc newSecOffset : Nat) {x : Nat}
    (place : x < desc ∨ desc + 4 ≤ x) (valid : x ≠ desc + 10)
    (fruId : x < desc + 32 ∨ desc + 48 ≤ x) : patchDesc host desc newSecOffset x = host x := by
  unfold patchDesc
  rw [write_outside (by simpa using place), write_outside (by simpa using fruId),
    write_outside (by rw [length_singleton]; omega)]

theorem restoreDesc_patchDesc (host : Store) (desc newSecOffset : Nat)
    (fruId : host (desc + 10) &&& 1 = 1) :
    restoreDesc (patchDesc host desc newSecOffset) desc (read host (desc + 32) 16)
      (field host desc 4) = host := by
  unfold restoreDesc
  rw [leBytes_field]
  apply SameOutside.restored
  intro x outside
  by_cases inside : desc + 32 ≤ x ∧ x < desc + 48
  · obtain ⟨k, rfl⟩ := Nat.exists_eq_add_of_le inside.1
    exact write_read_inside (by omega)
  · rw [write_outside (by rw [read_length]; omega)]
    by_cases valid : x = desc + 10
    · subst valid
      rw [setBits_at]
      unfold patchDesc
      rw [write_outside (by simp), write_outside (by simp), write_inside (i := 0) (by simp)]
      exact bit_back _ fruId
    · unfold setBits
      rw [write_outside (by rw [length_singleton]; omega)]
      exact patchDesc_same host desc _ outside valid (by omega)

theorem patchToVfDesc_host (fbOffset desc newSecOffset : Nat) (s : State)
    (fruId : s.host (desc + 10) &&& 1 = 1) :
    (patchToVfDesc fails fbOffset desc newSecOffset s).2.host = s.host := by
  show restoreDesc (copyAndCalcChecksum fails fbOffset _ _).2.host _ _ _ = s.host
  rw [copyAndCalcChecksum_host]
  exact restoreDesc_patchDesc s.host desc newSecOffset fruId

theorem patchToVfDesc_ok (fbOffset desc newSecOffset : Nat) (s : State)
    (ok : (patchToVfDesc fails fbOffset desc newSecOffset s).1 = true) :
    (patchToVfDesc fails fbOffset desc newSecOffset s).2.vf =
        write s.vf (fbOffset % 2 ^ 64)
          (read (patchDesc s.host desc newSecOffset) desc secDescLen) ∧
      (patchToVfDesc fails fbOffset desc newSecOffset s).2.checksum = s.checksum +
        BitVec.ofNat 32 (byteSum (read (patchDesc s.host desc newSecOffset) desc secDescLen)) :=
  ⟨copyAndCalcChecksum_vf fails _ _ _ ok, copyAndCalcChecksum_checksum fails _ _ _⟩

theorem patchToVfHdr_ok (fbOffset newSecCount newRecordLength : Nat) (s : State)
    (ok : (patchToVfHdr fails fbOffset newSecCount newRecordLength s).1 = true) :
    (patchToVfHdr fails fbOffset newSecCount newRecordLength s).2.vf =
        write s.vf (fbOffset % 2 ^ 64)
          (read (patchHdr s.host newSecCount newRecordLength) 0 hdrLen) ∧
      (patchToVfHdr fails fbOffset newSecCount newRecordLength s).2.checksum = s.checksum +
        BitVec.ofNat 32 (byteSum (read (patchHdr s.host newSecCount newRecordLength) 0 hdrLen)) :=
  ⟨copyAndCalcChecksum_vf fails _ _ _ ok, copyAndCalcChecksum_checksum fails _ _ _⟩

theorem patchAllowed_host (fbOffset i writeCount nextSecOffset : Nat) (s : State)
    (fruId : s.host (secDescOffset i + 10) &&& 1 = 1) :
    (patchAllowed fails fbOffset i writeCount nextSecOffset s).2.host = s.host := by
  unfold patchAllowed patchToVfSection
  simp only
  split
  · rw [patchToVfDesc_host, copyAndCalcChecksum_host]
    rw [copyAndCalcChecksum_host]
    exact fruId
  · exact copyAndCalcChecksum_host fails _ _ s

theorem patchAllowed_ok (fbOffset i writeCount nextSecOffset : Nat) (s : State) {body : List UInt8}
    (held : read s.host (field s.host (secDescOffset i) 4) (field s.host (secDescOffset i + 4) 4) =
      body) (ok : (patchAllowed fails fbOffset i writeCount nextSecOffset s).1 = true) :
    (patchAllowed fails fbOffset i writeCount nextSecOffset s).2.vf =
        write (write s.vf ((fbOffset + nextSecOffset) % 2 ^ 64) body)
          ((fbOffset + hdrLen + secDescLen * writeCount) % 2 ^ 64)
          (read (patchDesc s.host (secDescOffset i) nextSecOffset) (secDescOffset i) secDescLen) ∧
      (patchAllowed fails fbOffset i writeCount nextSecOffset s).2.checksum = s.checksum +
        BitVec.ofNat 32 (byteSum body +
          byteSum (read (patchDesc s.host (secDescOffset i) nextSecOffset) (secDescOffset i)
            secDescLen)) := by
  unfold patchAllowed patchToVfSection at *
  simp only [held] at ok ⊢
  split at ok
  case isFalse => cases ok
  case isTrue copied =>
    rw [if_pos copied]
    obtain ⟨vf, checksum⟩ := patchToVfDesc_ok fails _ _ _ _ ok
    rw [copyAndCalcChecksum_host] at vf checksum
    rw [copyAndCalcChecksum_vf fails _ _ _ copied] at vf
    rw [copyAndCalcChecksum_checksum, BitVec.add_assoc, ← BitVec.ofNat_add] at checksum
    exact ⟨vf, checksum⟩

theorem patchSections_host (allowed : Nat → Bool) (fbOffset fuel i writeCount nextSecOffset : Nat)
    (s : State) (fruIds : ∀ i < field s.host 10 2, s.host (secDescOffset i + 10) &&& 1 = 1) :
    (patchSections fails allowed fbOffset fuel i writeCount nextSecOffset s).state.host =
      s.host := by
  induction fuel generalizing i writeCount nextSecOffset s with
  | zero => rfl
  | succ fuel ih =>
    unfold patchSections
    split
    · rename_i more
      split
      · have turn := patchAllowed_host fails fbOffset i writeCount nextSecOffset s (fruIds i more)
        simp only
        split
        · rw [ih, turn]
          rw [turn]
          exact fruIds
        · exact turn
      · exact ih _ _ _ s fruIds
    · rfl

end Restores

section Places

variable {type : CperType} {count : Nat} {host : Store}

theorem secDescOffset_le (type : CperType) (count k : Nat) {j : Nat} (inside : j < count) :
    secDescOffset j + secDescLen ≤ type.secOffset count k := by
  have := Nat.mul_le_mul_left secDescLen (Nat.succ_le_of_lt inside)
  rw [Nat.mul_succ] at this
  unfold secDescOffset CperType.secOffset
  omega

theorem secDescOffset_lt {j k : Nat} (before : j < k) :
    secDescOffset j + secDescLen ≤ secDescOffset k := by
  have := Nat.mul_le_mul_left secDescLen (Nat.succ_le_of_lt before)
  rw [Nat.mul_succ] at this
  unfold secDescOffset
  omega

theorem secOffset_le (type : CperType) (count : Nat) {j k : Nat} (before : j < k) :
    type.secOffset count j + type.secLen ≤ type.secOffset count k := by
  have := Nat.mul_le_mul_left type.secLen (Nat.succ_le_of_lt before)
  rw [Nat.mul_succ] at this
  unfold CperType.secOffset
  omega

theorem secOffset_succ (type : CperType) (count k : Nat) :
    type.secOffset count k + type.secLen = type.secOffset count (k + 1) := by
  unfold CperType.secOffset
  rw [Nat.mul_succ, Nat.add_assoc]

theorem secLen_pos (type : CperType) : 0 < type.secLen := by
  cases type <;> decide

theorem secOffset_mono (type : CperType) {count few : Nat} (less : few ≤ count) :
    type.secOffset few few ≤ type.secOffset count count := by
  have := Nat.mul_le_mul_left type.secLen less
  have := Nat.mul_le_mul_left secDescLen less
  unfold CperType.secOffset
  omega

theorem recordLength_eq (type : CperType) (count : Nat) :
    hdrLen + (secDescLen + type.secLen) * count = type.secOffset count count := by
  unfold CperType.secOffset
  rw [Nat.add_mul, Nat.add_assoc]

theorem field_leBytes {m : Store} {off width value : Nat}
    (bytes : read m off width = leBytes width value) (small : value < 256 ^ width) :
    field m off width = value := by
  unfold field
  rw [bytes, ofLe_leBytes, Nat.mod_eq_of_lt small]

theorem Filled.secOffset (filled : Filled type count count host) (few : count < 2 ^ 16) {i : Nat}
    (inside : i < count) : field host (secDescOffset i) 4 = type.secOffset count i := by
  apply field_leBytes (filled.offset i inside)
  have short := record_short type few
  have before := secOffset_le type count inside
  rw [recordLength_eq] at short
  show _ < 2 ^ 32
  omega

theorem Filled.secLen (filled : Filled type count count host) {i : Nat} (inside : i < count) :
    field host (secDescOffset i + 4) 4 = type.secLen := by
  apply field_leBytes (filled.secLength i inside)
  cases type <;> decide

theorem Filled.sectionCount (filled : Filled type count count host) (few : count < 2 ^ 16) :
    field host 10 2 = count :=
  field_leBytes filled.secCnt few

theorem Filled.recordLength (filled : Filled type count count host) :
    field host 20 4 = type.secOffset count count := by
  rw [filled.length, recordLength_eq]

end Places

section Progress

variable (fails : Failures) {type : CperType} {count few base : Nat} {host : Store} {s s' : State}

/-- The sections in `sections` are copied for a record of `few` of them. -/
structure Progress (type : CperType) (count few base : Nat) (first : State) (sections : List Nat)
    (s : State) : Prop where
  host : s.host = first.host
  outside : SameOutside (base + hdrLen) (base + type.secOffset few few) first.vf s.vf
  desc : ∀ k i x, sections[k]? = some i → x < secDescLen →
    s.vf (base + secDescOffset k + x) =
      patchDesc first.host (secDescOffset i) (type.secOffset few k) (secDescOffset i + x)
  body : ∀ k i x, sections[k]? = some i → x < type.secLen →
    s.vf (base + type.secOffset few k + x) = first.host (type.secOffset count i + x)
  checksum : s.checksum = first.checksum + BitVec.ofNat 32 (((range sections.length).map
    fun k => byteSum (read s.vf (base + secDescOffset k) secDescLen) +
      byteSum (read s.vf (base + type.secOffset few k) type.secLen)).sum)

theorem Progress.start (first : State) : Progress type count few base first [] first := by
  refine ⟨rfl, SameOutside.refl _ _ _, ?_, ?_, ?_⟩
  · intro k i x none
    simp at none
  · intro k i x none
    simp at none
  · simp

/-- What a new descriptor and a new body at `k` leave of the memory: they are there, and all else
is as it was. -/
structure Placed (type : CperType) (few base k : Nat) (desc body : Nat → UInt8) (m m' : Store) :
    Prop where
  desc : ∀ x < secDescLen, m' (base + secDescOffset k + x) = desc x
  body : ∀ x < type.secLen, m' (base + type.secOffset few k + x) = body x
  others : ∀ x, (x < base + secDescOffset k ∨ base + secDescOffset k + secDescLen ≤ x) →
    (x < base + type.secOffset few k ∨ base + type.secOffset few k + type.secLen ≤ x) →
    m' x = m x

theorem Placed.of_writes {k i next : Nat} (room : k < few) (m host : Store) :
    Placed type few base k
      (fun x => patchDesc host (secDescOffset i) next (secDescOffset i + x))
      (fun x => host (type.secOffset count i + x)) m
      (write (write m (base + type.secOffset few k)
          (read host (type.secOffset count i) type.secLen))
        (base + secDescOffset k)
        (read (patchDesc host (secDescOffset i) next) (secDescOffset i) secDescLen)) := by
  have low := secDescOffset_le type few k room
  constructor
  · intro x inside
    exact write_read_inside inside
  · intro x inside
    rw [write_outside (by rw [read_length]; omega)]
    exact write_read_inside inside
  · intro x notDesc notBody
    rw [write_outside (by rw [read_length]; omega), write_outside (by rw [read_length]; omega)]

theorem Placed.earlier {k j : Nat} {desc body : Nat → UInt8} {m m' : Store}
    (placed : Placed type few base k desc body m m') (room : k < few) (before : j < k) :
    (∀ x < secDescLen, m' (base + secDescOffset j + x) = m (base + secDescOffset j + x)) ∧
      ∀ x < type.secLen,
        m' (base + type.secOffset few j + x) = m (base + type.secOffset few j + x) := by
  have descs := secDescOffset_lt before
  have bodies := secOffset_le type few before
  have under := secDescOffset_le type few j room
  constructor
  · intro x inside
    apply placed.others <;> omega
  · intro x inside
    apply placed.others <;> omega

theorem concat_getElem? {sections : List Nat} {i k j : Nat} (at_ : (sections ++ [i])[k]? = some j) :
    k < sections.length ∧ sections[k]? = some j ∨ k = sections.length ∧ j = i := by
  rcases Nat.lt_or_ge k sections.length with less | more
  · rw [getElem?_append_left less] at at_
    exact .inl ⟨less, at_⟩
  · rw [getElem?_append_right more] at at_
    obtain ⟨last, same⟩ := List.getElem?_eq_some_iff.mp at_
    rw [length_singleton] at last
    have zero : k - sections.length = 0 := by omega
    refine .inr ⟨by omega, ?_⟩
    rw [← same]
    simp [zero]

theorem Progress.turn {first : State} {sections : List Nat} {i : Nat}
    (filled : Filled type count count first.host) (few_ : count < 2 ^ 16)
    (progress : Progress type count few base first sections s) (inside : i < count)
    (room : sections.length < few) (fits : base + type.secOffset few few ≤ 2 ^ 64)
    (ok : (patchAllowed fails base i sections.length (type.secOffset few sections.length) s).1 =
      true) :
    Progress type count few base first (sections ++ [i])
      (patchAllowed fails base i sections.length (type.secOffset few sections.length) s).2 := by
  have low := secDescOffset_le type few sections.length room
  have high := secOffset_le type few room
  have positive := secLen_pos type
  have place : base + hdrLen + secDescLen * sections.length =
      base + secDescOffset sections.length := by
    unfold secDescOffset
    omega
  have small : (base + type.secOffset few sections.length) % 2 ^ 64 =
      base + type.secOffset few sections.length := Nat.mod_eq_of_lt (by omega)
  have smallDesc : (base + secDescOffset sections.length) % 2 ^ 64 =
      base + secDescOffset sections.length := Nat.mod_eq_of_lt (by omega)
  have held : read s.host (field s.host (secDescOffset i) 4)
      (field s.host (secDescOffset i + 4) 4) =
      read first.host (type.secOffset count i) type.secLen := by
    rw [progress.host, filled.secOffset few_ inside, filled.secLen inside]
  have host := patchAllowed_host fails base i sections.length
    (type.secOffset few sections.length) s (by
      rw [progress.host]
      exact filled.fruId i inside)
  obtain ⟨vf, checksum⟩ := patchAllowed_ok fails base i sections.length _ s held ok
  rw [place, small, smallDesc, progress.host] at vf
  rw [progress.host] at checksum
  rw [progress.host] at host
  have placed := (@Placed.of_writes type count few base sections.length i
    (type.secOffset few sections.length)) room s.vf first.host
  rw [← vf] at placed
  generalize (patchAllowed fails base i sections.length
    (type.secOffset few sections.length) s).2 = after at *
  refine ⟨host, ?_, ?_, ?_, ?_⟩
  · intro x outside
    rw [placed.others x (by unfold secDescOffset at *; omega) (by omega)]
    exact progress.outside x outside
  · intro k j x at_ short
    rcases concat_getElem? at_ with ⟨less, old⟩ | ⟨rfl, rfl⟩
    · rw [(placed.earlier room less).1 x short]
      exact progress.desc k j x old short
    · exact placed.desc x short
  · intro k j x at_ short
    rcases concat_getElem? at_ with ⟨less, old⟩ | ⟨rfl, rfl⟩
    · rw [(placed.earlier room less).2 x short]
      exact progress.body k j x old short
    · exact placed.body x short
  · have old : ∀ k ∈ range sections.length,
        byteSum (read after.vf (base + secDescOffset k) secDescLen) +
            byteSum (read after.vf (base + type.secOffset few k) type.secLen) =
          byteSum (read s.vf (base + secDescOffset k) secDescLen) +
            byteSum (read s.vf (base + type.secOffset few k) type.secLen) := by
      intro k member
      have earlier := placed.earlier room (mem_range.mp member)
      rw [read_congr earlier.1, read_congr earlier.2]
    rw [length_append, length_singleton, range_succ, map_append,
      sum_append, map_congr_left old, map_singleton, sum_singleton,
      read_shift placed.desc, read_shift placed.body, checksum, progress.checksum,
      BitVec.add_assoc, ← BitVec.ofNat_add, Nat.add_comm (byteSum (read first.host _ _))]

theorem kept_succ (allowed : Nat → Bool) (i : Nat) :
    kept allowed (i + 1) = if allowed i then kept allowed i ++ [i] else kept allowed i := by
  unfold kept
  rw [range_succ, filter_append]
  split
  · rename_i yes
    rw [filter_cons_of_pos yes]
    rfl
  · rename_i no
    rw [filter_cons_of_neg no, filter_nil, append_nil]

theorem kept_length_mono (allowed : Nat → Bool) {i j : Nat} (le : i ≤ j) :
    (kept allowed i).length ≤ (kept allowed j).length := by
  induction le with
  | refl => exact Nat.le_refl _
  | step _ ih =>
    rw [kept_succ]
    split
    · rw [length_append]
      omega
    · exact ih

theorem kept_le (allowed : Nat → Bool) (count : Nat) : (kept allowed count).length ≤ count := by
  have := length_filter_le allowed (range count)
  rwa [length_range] at this

theorem patchSections_spec {first : State} {allowed : Nat → Bool}
    (filled : Filled type count count first.host) (few_ : count < 2 ^ 16)
    (full : few = (kept allowed count).length)
    (fits : base + type.secOffset few few ≤ 2 ^ 64) (fuel i : Nat) (s : State)
    (within : i ≤ count) (enough : count - i ≤ fuel)
    (progress : Progress type count few base first (kept allowed i) s)
    (ok : (patchSections fails allowed base fuel i (kept allowed i).length
      (type.secOffset few (kept allowed i).length) s).ok = true) :
    ∃ last, patchSections fails allowed base fuel i (kept allowed i).length
        (type.secOffset few (kept allowed i).length) s =
          ⟨true, last, few, type.secOffset few few⟩ ∧
      Progress type count few base first (kept allowed count) last := by
  induction fuel generalizing i s with
  | zero =>
    have done : i = count := by omega
    subst done
    refine ⟨s, ?_, progress⟩
    rw [patchSections, ← full]
  | succ fuel ih =>
    have secCount : field s.host 10 2 = count := by
      rw [progress.host]
      exact filled.sectionCount few_
    unfold patchSections at ok ⊢
    rw [secCount] at ok ⊢
    by_cases more : i < count
    · rw [if_pos more] at ok ⊢
      have further := kept_length_mono allowed (Nat.succ_le_of_lt more)
      have step := kept_succ allowed i
      by_cases may : allowed i = true
      · rw [if_pos may] at ok ⊢ step
        rw [Nat.succ_eq_add_one, step, length_append, length_singleton, ← full] at further
        simp only at ok ⊢
        split at ok
        case isFalse => cases ok
        case isTrue copied =>
          rw [if_pos copied]
          have turned := progress.turn fails filled few_ more further fits copied
          have short := record_short type few_
          have less := secOffset_mono type (kept_le allowed count)
          have next : (type.secOffset few (kept allowed i).length +
              field (patchAllowed fails base i (kept allowed i).length
                (type.secOffset few (kept allowed i).length) s).2.host (secDescOffset i + 4) 4) %
              2 ^ 32 = type.secOffset few (kept allowed (i + 1)).length := by
            rw [turned.host, filled.secLen more, step, length_append, length_singleton]
            rw [recordLength_eq] at short
            rw [← full] at less
            have upTo := Nat.mul_le_mul_left type.secLen further
            rw [secOffset_succ]
            apply Nat.mod_eq_of_lt
            unfold CperType.secOffset at *
            omega
          rw [next] at ok ⊢
          rw [← step] at turned
          have length : (kept allowed i).length + 1 = (kept allowed (i + 1)).length := by
            rw [step, length_append, length_singleton]
          rw [length] at ok ⊢
          exact ih (i + 1) _ more (by omega) turned ok
      · rw [if_neg may] at ok ⊢ step
        rw [← step] at ok ⊢ progress
        exact ih (i + 1) s more (by omega) progress ok
    · rw [if_neg more] at ok ⊢
      have done : i = count := by omega
      subst done
      refine ⟨s, ?_, progress⟩
      rw [← full]

end Progress

section Results

variable {type : CperType} {count base : Nat} {first last : State} {sections : List Nat}

theorem byteSum_append (a b : List UInt8) : byteSum (a ++ b) = byteSum a + byteSum b := by
  unfold byteSum
  rw [map_append, sum_append]

theorem byteSum_cells (m : Store) (at_ size n : Nat) : byteSum (read m at_ (n * size)) =
    ((range n).map fun k => byteSum (read m (at_ + size * k) size)).sum := by
  induction n with
  | zero => simp [byteSum]
  | succ n ih =>
    rw [Nat.succ_mul, read_add, byteSum_append, ih, range_succ, map_append,
      sum_append, map_singleton, sum_singleton, Nat.mul_comm n size]

theorem byteSum_record (type : CperType) (m : Store) (base few : Nat) :
    byteSum (read m base (type.secOffset few few)) = byteSum (read m base hdrLen) +
      ((range few).map fun k => byteSum (read m (base + secDescOffset k) secDescLen) +
        byteSum (read m (base + type.secOffset few k) type.secLen)).sum := by
  have descs := byteSum_cells m (base + hdrLen) secDescLen few
  have bodies := byteSum_cells m (base + (hdrLen + secDescLen * few)) type.secLen few
  rw [Nat.mul_comm few secDescLen] at descs
  rw [Nat.mul_comm few type.secLen] at bodies
  rw [sum_map_add, CperType.secOffset, read_add, read_add, byteSum_append, byteSum_append,
    descs, bodies]
  simp only [secDescOffset, CperType.secOffset, Nat.add_assoc]

/-- What the VF's memory holds when the header is copied behind all sections. -/
structure Held (type : CperType) (count base : Nat) (host : Store) (sections : List Nat)
    (vf : Store) : Prop where
  hdr : ∀ x < hdrLen, vf (base + x) =
    patchHdr host sections.length (type.secOffset sections.length sections.length) x
  desc : ∀ k i x, sections[k]? = some i → x < secDescLen → vf (base + secDescOffset k + x) =
    patchDesc host (secDescOffset i) (type.secOffset sections.length k) (secDescOffset i + x)
  body : ∀ k i x, sections[k]? = some i → x < type.secLen →
    vf (base + type.secOffset sections.length k + x) = host (type.secOffset count i + x)

theorem Progress.held
    (progress : Progress type count sections.length base first sections last) :
    Held type count base first.host sections
      (write last.vf base (read (patchHdr last.host sections.length
        (type.secOffset sections.length sections.length)) 0 hdrLen)) := by
  have behind : ∀ x, base + hdrLen ≤ x → write last.vf base (read (patchHdr last.host
      sections.length (type.secOffset sections.length sections.length)) 0 hdrLen) x =
        last.vf x := by
    intro x above
    rw [write_outside (by rw [read_length]; omega)]
  constructor
  · intro x inside
    rw [write_read_inside inside, Nat.zero_add, progress.host]
  · intro k i x at_ inside
    rw [behind _ (by unfold secDescOffset; omega)]
    exact progress.desc k i x at_ inside
  · intro k i x at_ inside
    rw [behind _ (by unfold CperType.secOffset; omega)]
    exact progress.body k i x at_ inside

theorem Held.secLength {host vf : Store} (held : Held type count base host sections vf)
    {k i : Nat} (at_ : sections[k]? = some i) :
    field vf (base + secDescOffset k + 4) 4 = field host (secDescOffset i + 4) 4 := by
  unfold field
  congr 1
  apply read_shift
  intro x short
  have own := held.desc k i (4 + x) at_ (by unfold secDescLen; omega)
  rw [patchDesc_same host _ _ (by omega) (by omega) (by omega)] at own
  simp only [Nat.add_assoc] at own ⊢
  exact own

section Fields

variable {host vf : Store} (held : Held type count base host sections vf)
  (few : sections.length < 2 ^ 16)
include held few

theorem Held.secOffset {k i : Nat} (at_ : sections[k]? = some i) :
    field vf (base + secDescOffset k) 4 = type.secOffset sections.length k := by
  have bytes : read vf (base + secDescOffset k) 4 =
      read (patchDesc host (secDescOffset i) (type.secOffset sections.length k))
        (secDescOffset i) 4 := by
    apply read_shift
    intro x inside
    exact held.desc k i x at_ (by unfold secDescLen; omega)
  have inside := (List.getElem?_eq_some_iff.mp at_).1
  have short := record_short type few
  have before := secOffset_le type sections.length inside
  rw [recordLength_eq] at short
  apply field_leBytes (bytes.trans (read_write_self (leBytes_length _ _)))
  show _ < 2 ^ 32
  omega

theorem Held.record (filled : Filled type count count host) (many : count < 2 ^ 16)
    (all : ∀ i ∈ sections, i < count) :
    Record host vf base (type.secOffset sections.length sections.length) sections := by
  have short := record_short type few
  rw [recordLength_eq] at short
  -- the section that a descriptor is about
  have about : ∀ k < sections.length, ∃ i, sections[k]? = some i ∧ i < count := by
    intro k inside
    exact ⟨sections[k], getElem?_eq_getElem inside, all _ (getElem_mem inside)⟩
  have known : ∀ k i : Nat, sections[k]? = some i → i < count := by
    intro k i at_
    exact all i (mem_of_getElem? at_)
  have length : ∀ k i : Nat, sections[k]? = some i →
      field vf (base + secDescOffset k + 4) 4 = type.secLen := by
    intro k i at_
    rw [held.secLength at_, filled.secLen (known k i at_)]
  refine ⟨?_, ?_, ?_, ?_, ?_, ?_, ?_, ?_⟩
  · have bytes : read vf (base + 10) 2 = read (patchHdr host sections.length
        (type.secOffset sections.length sections.length)) 10 2 := by
      apply read_shift
      intro x inside
      rw [Nat.add_assoc]
      exact held.hdr (10 + x) (by unfold hdrLen; omega)
    refine field_leBytes (bytes.trans ?_) few
    unfold patchHdr
    rw [read_write_outside (by simp), read_write_self (leBytes_length _ _)]
  · have bytes : read vf (base + 20) 4 = read (patchHdr host sections.length
        (type.secOffset sections.length sections.length)) 20 4 := by
      apply read_shift
      intro x inside
      rw [Nat.add_assoc]
      exact held.hdr (20 + x) (by unfold hdrLen; omega)
    exact field_leBytes (bytes.trans (read_write_self (leBytes_length _ _))) short
  · intro k i at_
    refine ⟨held.secLength at_, ?_⟩
    rw [length k i at_, held.secOffset few at_, filled.secOffset many (known k i at_),
      filled.secLen (known k i at_)]
    apply read_shift
    intro x inside
    exact held.body k i x at_ inside
  · intro k inside
    obtain ⟨i, at_, _⟩ := about k inside
    rw [length k i at_, held.secOffset few at_]
    exact ⟨Nat.le_add_right _ _, secOffset_le type sections.length inside⟩
  · intro k l before inside
    obtain ⟨i, at_, _⟩ := about k (by omega)
    obtain ⟨j, there, _⟩ := about l inside
    rw [length k i at_, held.secOffset few at_, held.secOffset few there]
    exact secOffset_le type sections.length before
  · intro k inside
    obtain ⟨i, at_, _⟩ := about k inside
    constructor
    · rw [held.desc k i 10 at_ (by decide)]
      unfold patchDesc
      rw [write_outside (by simp), write_outside (by simp), write_inside (i := 0) (by simp),
        getElem_cons_zero, UInt8.and_assoc]
      exact UInt8.and_zero
    · have bytes : read vf (base + secDescOffset k + 32) 16 = read (patchDesc host
          (secDescOffset i) (type.secOffset sections.length k)) (secDescOffset i + 32) 16 := by
        apply read_shift
        intro x short
        have own := held.desc k i (32 + x) at_ (by unfold secDescLen; omega)
        simp only [Nat.add_assoc] at own ⊢
        exact own
      rw [bytes]
      unfold patchDesc
      rw [read_write_outside (by simp), read_write_self (by simp)]
  · intro x inside secCnt recordLength
    rw [held.hdr x inside]
    exact patchHdr_same host _ _ secCnt recordLength
  · intro k i x at_ place inside valid fruId
    rw [held.desc k i x at_ inside]
    exact patchDesc_same host _ _ (by omega) (by omega) (by omega)

end Fields

/-- What a call delivers that reports success: the record of these sections, no byte of the VF's
memory outside of it, and its sum. -/
structure Delivered (sections : List Nat) (fbOffset : Nat) (s : State) (result : Patched) :
    Prop where
  behind : fbOffset ≤ result.fbOffset
  record : Record s.host result.state.vf fbOffset (result.fbOffset - fbOffset) sections
  others : SameOutside fbOffset result.fbOffset s.vf result.state.vf
  checksum : result.state.checksum = s.checksum +
    BitVec.ofNat 32 (byteSum (read result.state.vf fbOffset (result.fbOffset - fbOffset)))

variable (fails : Failures)

theorem patchToVf_host (allowed : Nat → Bool) (allowedCount fbOffset : Nat) (s : State)
    (fruIds : ∀ i < field s.host 10 2, s.host (secDescOffset i + 10) &&& 1 = 1) :
    (patchToVf fails allowed allowedCount fbOffset s).state.host = s.host := by
  have looped := patchSections_host fails allowed fbOffset (2 ^ 16) 0 0
    ((hdrLen + secDescLen * allowedCount) % 2 ^ 32) s fruIds
  unfold patchToVf
  split
  · rfl
  · simp only
    split
    · split
      · exact (patchToVfHdr_host fails _ _ _ _).trans looped
      · exact (patchToVfHdr_host fails _ _ _ _).trans looped
    · exact looped

theorem Progress.delivered {sections : List Nat} {fbOffset : Nat}
    (progress : Progress type count sections.length fbOffset first sections last)
    (filled : Filled type count count first.host) (many : count < 2 ^ 16)
    (few : sections.length < 2 ^ 16) (all : ∀ i ∈ sections, i < count)
    (fits : fbOffset + type.secOffset sections.length sections.length < 2 ^ 64)
    (ok : (patchToVfHdr fails fbOffset sections.length
      (type.secOffset sections.length sections.length) last).1 = true) :
    Delivered sections fbOffset first
      ⟨true, (patchToVfHdr fails fbOffset sections.length
        (type.secOffset sections.length sections.length) last).2,
        fbOffset + type.secOffset sections.length sections.length⟩ := by
  obtain ⟨vf, checksum⟩ := patchToVfHdr_ok fails _ _ _ _ ok
  rw [Nat.mod_eq_of_lt (show fbOffset < 2 ^ 64 by omega)] at vf
  have held := progress.held
  rw [← vf] at held
  have long : hdrLen ≤ type.secOffset sections.length sections.length := by
    unfold CperType.secOffset
    omega
  generalize (patchToVfHdr fails fbOffset sections.length
    (type.secOffset sections.length sections.length) last).2 = after at *
  have hdr : read after.vf fbOffset hdrLen = read (patchHdr last.host sections.length
      (type.secOffset sections.length sections.length)) 0 hdrLen := by
    rw [vf]
    exact read_write_self read_length
  have behind : ∀ off n, fbOffset + hdrLen ≤ off → read after.vf off n = read last.vf off n := by
    intro off n above
    rw [vf]
    apply read_write_outside
    rw [read_length]
    exact .inr above
  refine ⟨Nat.le_add_right _ _, ?_, ?_, ?_⟩
  · show Record first.host after.vf fbOffset (_ - fbOffset) sections
    rw [Nat.add_sub_cancel_left]
    exact held.record few filled many all
  · intro x outside
    have apart : x < fbOffset ∨
        fbOffset + type.secOffset sections.length sections.length ≤ x := outside
    show after.vf x = first.vf x
    rw [vf, write_outside (by rw [read_length]; omega)]
    exact progress.outside x (by omega)
  · show after.checksum = _ + BitVec.ofNat 32 (byteSum (read after.vf fbOffset (_ - fbOffset)))
    have sections_ : ∀ k ∈ range sections.length,
        byteSum (read after.vf (fbOffset + secDescOffset k) secDescLen) +
            byteSum (read after.vf (fbOffset + type.secOffset sections.length k) type.secLen) =
          byteSum (read last.vf (fbOffset + secDescOffset k) secDescLen) +
            byteSum (read last.vf (fbOffset + type.secOffset sections.length k) type.secLen) := by
      intro k _
      rw [behind _ _ (by unfold secDescOffset; omega),
        behind _ _ (by unfold CperType.secOffset; omega)]
    rw [Nat.add_sub_cancel_left, byteSum_record, map_congr_left sections_, hdr, checksum,
      progress.checksum, BitVec.add_assoc, ← BitVec.ofNat_add, Nat.add_comm (sum _)]

theorem patchToVf_delivers {allowed : Nat → Bool} {fbOffset : Nat} {s : State}
    (filled : Filled type count count s.host) (many : count < 2 ^ 16)
    (some_ : kept allowed count ≠ []) (fits : fbOffset + type.secOffset count count < 2 ^ 64)
    (ok : (patchToVf fails allowed (kept allowed count).length fbOffset s).ok = true) :
    Delivered (kept allowed count) fbOffset s
      (patchToVf fails allowed (kept allowed count).length fbOffset s) := by
  have few := kept_le allowed count
  have less := secOffset_mono type few
  have short := record_short type many
  rw [recordLength_eq] at short
  have positive : (kept allowed count).length ≠ 0 := by
    rwa [ne_eq, length_eq_zero_iff]
  have begins : (hdrLen + secDescLen * (kept allowed count).length) % 2 ^ 32 =
      type.secOffset (kept allowed count).length (kept allowed 0).length := by
    apply Nat.mod_eq_of_lt
    unfold CperType.secOffset at *
    omega
  have next : (fbOffset + type.secOffset (kept allowed count).length
      (kept allowed count).length) % 2 ^ 64 =
      fbOffset + type.secOffset (kept allowed count).length (kept allowed count).length :=
    Nat.mod_eq_of_lt (by omega)
  have all : ∀ i ∈ kept allowed count, i < count := by
    intro i member
    exact mem_range.mp (mem_of_mem_filter member)
  unfold patchToVf at ok ⊢
  rw [if_neg positive, begins] at ok ⊢
  have looped : (patchSections fails allowed fbOffset (2 ^ 16) 0 0
      (type.secOffset (kept allowed count).length (kept allowed 0).length) s).ok = true := by
    cases loop : (patchSections fails allowed fbOffset (2 ^ 16) 0 0
      (type.secOffset (kept allowed count).length (kept allowed 0).length) s).ok with
    | true => rfl
    | false =>
      simp only [loop] at ok
      cases ok
  obtain ⟨last, result, progress⟩ := patchSections_spec fails filled many rfl (by omega) (2 ^ 16)
    0 s (Nat.zero_le _) (by omega) (Progress.start s) looped
  have result_ : patchSections fails allowed fbOffset (2 ^ 16) 0 0
      (type.secOffset (kept allowed count).length (kept allowed 0).length) s =
      ⟨true, last, (kept allowed count).length, type.secOffset (kept allowed count).length
        (kept allowed count).length⟩ := result
  rw [result_] at ok ⊢
  simp only [if_true] at ok ⊢
  split at ok
  case isFalse => cases ok
  case isTrue copied =>
    rw [if_pos copied, next]
    exact progress.delivered fails filled many (by omega) all (by omega) copied

/-- For every record of the writers, every choice of sections and whichever copies fail, the host's
record is as it was. A call that has a section to copy and succeeds delivers the record of all that
it was to copy; one that has none leaves everything alone. -/
theorem guest_record (adapt : Adapter) (type : CperType) (sev : Severity)
    (sections : List (Section type)) (many : sections.length < 2 ^ 16) (fails : Failures)
    (allowed : Nat → Bool) (fbOffset : Nat) (s : State)
    (built : s.host = buildEntry adapt type sev sections)
    (fits : fbOffset + field s.host 20 4 < 2 ^ 64) :
    let chosen := kept allowed sections.length
    let result := patchToVf fails allowed chosen.length fbOffset s
    result.state.host = s.host ∧
      (chosen ≠ [] → result.ok = true → Delivered chosen fbOffset s result) ∧
      (chosen = [] → result = ⟨true, s, fbOffset⟩) := by
  have filled := buildEntry_filled adapt type sev sections many
  rw [← built] at filled
  rw [filled.recordLength] at fits
  refine ⟨?_, ?_, ?_⟩
  · apply patchToVf_host
    rw [filled.sectionCount many]
    exact filled.fruId
  · intro some_ ok
    exact patchToVf_delivers fails filled many some_ fits ok
  · intro none
    unfold patchToVf
    rw [none]
    rfl

section Succeeds

variable {fails} (none_ : ∀ k, fails k = none)
include none_

theorem copyAndCalcChecksum_succeeds (offset : Nat) (buf : List UInt8) (s : State) :
    (copyAndCalcChecksum fails offset buf s).1 = true := by
  unfold copyAndCalcChecksum
  rw [none_]

theorem patchAllowed_succeeds (fbOffset i writeCount nextSecOffset : Nat) (s : State) :
    (patchAllowed fails fbOffset i writeCount nextSecOffset s).1 = true := by
  unfold patchAllowed patchToVfSection
  simp only [copyAndCalcChecksum_succeeds none_, if_true]
  exact copyAndCalcChecksum_succeeds none_ _ _ _

theorem patchSections_succeeds (allowed : Nat → Bool)
    (fbOffset fuel i writeCount nextSecOffset : Nat) (s : State) :
    (patchSections fails allowed fbOffset fuel i writeCount nextSecOffset s).ok = true := by
  induction fuel generalizing i writeCount nextSecOffset s with
  | zero => rfl
  | succ fuel ih =>
    unfold patchSections
    split
    · split
      · simp only [patchAllowed_succeeds none_, if_true]
        exact ih _ _ _ _
      · exact ih _ _ _ _
    · rfl

theorem patchToVf_succeeds (allowed : Nat → Bool) (allowedCount fbOffset : Nat) (s : State) :
    (patchToVf fails allowed allowedCount fbOffset s).ok = true := by
  have hdr : ∀ newSecCount newRecordLength t,
      (patchToVfHdr fails fbOffset newSecCount newRecordLength t).1 = true :=
    fun _ _ _ => copyAndCalcChecksum_succeeds none_ _ _ _
  unfold patchToVf
  split
  · rfl
  · simp only [patchSections_succeeds none_, hdr, if_true]

end Succeeds

def sectionsOf (count : Nat) : List (Section .fatal) :=
  (range count).map fun i => .fatal fun _ => i

def anAdapter : Adapter :=
  ⟨[], [], [], [], [], ⟨0, 0, 0, 1, 1, 70, 19⟩, 0, 0⟩

def aState (count : Nat) (byte : UInt8) : State :=
  ⟨buildEntry anAdapter .fatal .fatal (sectionsOf count), fun _ => byte, 0, 0⟩

theorem aState_fits (count fbOffset : Nat) (byte : UInt8) (low : fbOffset < 2 ^ 63) :
    fbOffset + field (aState count byte).host 20 4 < 2 ^ 64 := by
  have small := ofLe_lt (read (aState count byte).host 20 4)
  rw [read_length] at small
  unfold field
  omega

/-- Of three sections the guest may see the first and the last one. -/
theorem guest_record_fatal : ∃ result : Patched, result.ok = true ∧
    result.state.host = (aState 3 0).host ∧ Delivered [0, 2] 0x1000 (aState 3 0) result := by
  obtain ⟨host, delivered, _⟩ := guest_record anAdapter .fatal .fatal (sectionsOf 3) (by decide)
    (fun _ => none) (· ≠ 1) 0x1000 (aState 3 0) rfl (aState_fits 3 0x1000 0 (by decide))
  have ok := (@patchToVf_succeeds fun _ => none) (fun _ => rfl) (· ≠ 1) 2 0x1000 (aState 3 0)
  exact ⟨_, ok, host, delivered (by decide) ok⟩

/-- A call without a section to copy succeeds, but there is no record of no sections. -/
theorem no_record_of_none : ¬ ∀ (adapt : Adapter) (type : CperType) (sev : Severity)
    (sections : List (Section type)) (fails : Failures) (allowed : Nat → Bool) (fbOffset : Nat)
    (s : State), sections.length < 2 ^ 16 → s.host = buildEntry adapt type sev sections →
    fbOffset + field s.host 20 4 < 2 ^ 64 →
    let chosen := kept allowed sections.length
    let result := patchToVf fails allowed chosen.length fbOffset s
    result.state.host = s.host ∧ (result.ok = true → Delivered chosen fbOffset s result) := by
  intro all
  have delivered := (all anAdapter .fatal .fatal (sectionsOf 1) (fun _ => none) (fun _ => false) 0
    (aState 1 0xff) (by decide) rfl (aState_fits 1 0 0xff (by decide))).2 rfl
  have secCnt := delivered.record.secCnt
  cases secCnt

end Results

end Cper.Host
