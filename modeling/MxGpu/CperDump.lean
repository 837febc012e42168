import MxGpu.ByteStore
import MxGpu.CperRing
import MxGpu.Tiling
import Mathlib.Algebra.Order.BigOperators.Group.List

/- How records are dumped for a guest: `amdgv_vfmgr_dump_cpers` copies the sections that a
VF may see into its telemetry table. -/
namespace Cper

open ByteStore Tiling

/-- `HDR_LEN` and `SEC_DESC_LEN`; the structures are packed. -/
def hdrLen : Nat := 128
def secDescLen : Nat := 72

def maxRecordLen : Nat := 0x2000

/-- A section: the fields of its `struct cper_sec_desc` in their order, without the offset and
the FRU id, and the bytes that the descriptor points at. -/
structure Sec where
  revision : List UInt8
  revision_length : revision.length = 2
  validMask : UInt8
  kind : List UInt8
  kind_length : kind.length = 21
  text : List UInt8
  text_length : text.length = 24
  body : List UInt8

/-- `struct cper_hdr` with its sections: what comes before `sec_cnt`, between `sec_cnt` and
`record_length`, and after it. The driver's records have at most twelve sections. -/
structure Hdr where
  lead : List UInt8
  lead_length : lead.length = 10
  severity : List UInt8
  severity_length : severity.length = 8
  trail : List UInt8
  trail_length : trail.length = 104
  sections : List Sec
  recordLength : Nat
  recordLength_eq : recordLength =
    hdrLen + (sections.map fun sec => secDescLen + sec.body.length).sum
  recordLength_le : recordLength ≤ maxRecordLen

/-- `struct amd_sriov_ras_cper_dump` without its buffer. -/
structure CperDump where
  more : Bool
  overflowCount : Nat
  count : Nat
  wptr : Nat
  deriving DecidableEq, Repr

/-- What is copied to the table by one call of `amdgv_vfmgr_copy_to_vf_xchg_table`;
`position` is the place of the record in the ring's history. -/
inductive Chunk where
  | telemetryHeader (checksum usedSize : Nat)
  | cperDump (dump : CperDump)
  | hdr (position : Nat) (hdr : Hdr) (secCnt recordLength : Nat)
  | desc (position : Nat) (sec : Sec) (secOffset : Nat)
  | body (position : Nat) (sec : Sec)

/-- The bytes of a chunk, with the fields that `amdgv_cper_patch_to_vf` changes. -/
def Chunk.bytes : Chunk → List UInt8
  | .telemetryHeader checksum usedSize =>
    leBytes 4 checksum ++ leBytes 4 usedSize ++ List.replicate 8 0
  | .cperDump dump =>
    leBytes 4 dump.more.toNat ++ leBytes 8 dump.overflowCount ++ leBytes 8 dump.count ++
      leBytes 8 dump.wptr
  | .hdr _ record secCnt recordLength =>
    record.lead ++ leBytes 2 secCnt ++ record.severity ++ leBytes 4 recordLength ++ record.trail
  | .desc _ sec secOffset =>
    leBytes 4 secOffset ++ leBytes 4 sec.body.length ++ sec.revision ++
      [sec.validMask &&& 0xfe] ++ sec.kind ++ List.replicate 16 0 ++ sec.text
  | .body _ sec => sec.body

structure Write where
  offset : Nat
  chunk : Chunk

def Write.span (write : Write) : Span := (write.offset, write.chunk.bytes.length)

/-- `amd_sriov_msg_checksum` with no key and no checksum to take off. -/
def msgChecksum (bytes : List UInt8) : Nat := (bytes.map UInt8.toNat).sum % 2 ^ 32

def checksumOf (writes : List Write) : Nat :=
  writes.foldl (fun checksum write => (checksum + msgChecksum write.chunk.bytes) % 2 ^ 32) 0

/-- `amdgv_vfmgr_cper_get_allowed_list`: the sections of a record that a VF may see. -/
def allowedSections (allowed : Hdr → Nat → Bool) (hdr : Hdr) : List Sec :=
  (hdr.sections.zipIdx.filter fun entry => allowed hdr entry.2).map Prod.fst

/-- The loop of `amdgv_cper_patch_to_vf` over the allowed sections: what it copies, and
`next_sec_offset` behind them. -/
def patchSections (position fbOffset : Nat) : List Sec → Nat → Nat → List Write × Nat
  | [], _, nextSecOffset => ([], nextSecOffset)
  | sec :: rest, writeCount, nextSecOffset =>
    let patched := patchSections position fbOffset rest (writeCount + 1)
      (nextSecOffset + sec.body.length)
    ({ offset := fbOffset + nextSecOffset, chunk := .body position sec } ::
      { offset := fbOffset + hdrLen + secDescLen * writeCount
        chunk := .desc position sec nextSecOffset } :: patched.1, patched.2)

/-- `amdgv_cper_patch_to_vf`: what it copies, and where the next record goes. -/
def patchToVf (position fbOffset : Nat) (hdr : Hdr) (sections : List Sec) : List Write × Nat :=
  if sections.length = 0 then ([], fbOffset)
  else
    let patched := patchSections position fbOffset sections 0
      (hdrLen + secDescLen * sections.length)
    (patched.1 ++ [{ offset := fbOffset, chunk := .hdr position hdr sections.length patched.2 }],
      fbOffset + patched.2)

/-- `KBYTES_TO_BYTES` of the telemetry table's size, the same in every layout. -/
def tableSize : Nat := 64 * 1024

/-- `sizeof(struct amd_sriov_ras_telemetry_header)`, and the offset of the dump's buffer. -/
def telemetryHeaderSize : Nat := 16
def bufOffset : Nat := telemetryHeaderSize + 28

/-- What the loop of `amdgv_vfmgr_dump_cpers` has copied when it stops. -/
structure Copied where
  visited : List (Nat × Hdr)
  writes : List Write
  count : Nat
  fbOffset : Nat
  left : List Nat

/-- The loop of `amdgv_vfmgr_dump_cpers` over the positions that are left. -/
def copyRecords (c : Ring Hdr) (allowed : Hdr → Nat → Bool) (tableOffset : Nat) :
    List Nat → Nat → Copied
  | [], fbOffset => { visited := [], writes := [], count := 0, fbOffset, left := [] }
  | rptr :: rest, fbOffset =>
    match c.getRingEntry rptr with
    | none => copyRecords c allowed tableOffset rest fbOffset
    | some hdr =>
      if hdr.recordLength > tableSize - bufOffset then
        copyRecords c allowed tableOffset rest fbOffset
      else if fbOffset - tableOffset + hdr.recordLength > tableSize then
        { visited := [], writes := [], count := 0, fbOffset, left := rptr :: rest }
      else
        let patched := patchToVf rptr fbOffset hdr (allowedSections allowed hdr)
        let copied := copyRecords c allowed tableOffset rest patched.2
        { copied with
          visited := (rptr, hdr) :: copied.visited
          writes := patched.1 ++ copied.writes
          count := copied.count + 1 }

/-- The part of a VF that its dumps use: `xchg.ras.cper` and the place of its table. -/
structure VfCper where
  startRptr : Nat
  prevHostWptr : Nat
  tableOffset : Nat

/-- A request of a guest: its read pointer, what the section filter says during the call, and
after how many copies one fails, if one does. -/
structure Request where
  vfRptr : Nat
  allowed : Hdr → Nat → Bool
  failsAfter : Option Nat

/-- `rptr` after the guest's read pointer is clamped, and `overflow_count`. -/
def clampRptr (c : Ring Hdr) (vf : VfCper) (vfRptr : Nat) : Nat × Nat :=
  let maxOffset := if c.wptr ≥ vf.startRptr then c.wptr - vf.startRptr else 0
  if vfRptr ≥ maxOffset then (c.wptr, 0)
  else
    let rptr := vf.startRptr + vfRptr
    (c.moveToFirstValid rptr, c.moveToFirstValid rptr - rptr)

/-- All that a call copies: the records, then the fields of the dump, then the header; and
whether the guest may ask again at once. -/
structure Dump where
  copied : Copied
  dump : CperDump
  writes : List Write
  allowAgain : Bool

/-- `amdgv_vfmgr_dump_cpers`, when the VFs may have telemetry and every copy goes through. -/
def dumpCpers (c : Ring Hdr) (vf : VfCper) (request : Request) : Dump :=
  let (first, overflowCount) := clampRptr c vf request.vfRptr
  let copied := copyRecords c request.allowed vf.tableOffset
    (List.range' first (c.wptr - first)) (vf.tableOffset + bufOffset)
  let rptr := copied.left.head?.getD c.wptr
  let dump : CperDump :=
    { more := decide (rptr ≠ c.wptr)
      overflowCount
      count := copied.count
      wptr := (rptr + 2 ^ 64 - vf.startRptr) % 2 ^ 64 }
  let fixed : Write := { offset := vf.tableOffset + telemetryHeaderSize, chunk := .cperDump dump }
  let usedSize := (copied.fbOffset - telemetryHeaderSize - vf.tableOffset) % 2 ^ 32
  let header : Write :=
    { offset := vf.tableOffset
      chunk := .telemetryHeader (checksumOf (copied.writes ++ [fixed])) usedSize }
  { copied, dump, writes := copied.writes ++ [fixed, header]
    allowAgain := dump.more && decide (request.vfRptr = vf.prevHostWptr) }

namespace Dump

variable (dump : Dump) (request : Request)

def performed : List Write :=
  match request.failsAfter with
  | none => dump.writes
  | some k => dump.writes.take k

def succeeds : Bool := request.failsAfter.all fun k => decide (dump.writes.length ≤ k)

/-- `prev_host_wptr` is set even when the fixed fields or the header cannot be copied. -/
def vfAfter (vf : VfCper) : VfCper :=
  if request.failsAfter.all (fun k => decide (dump.copied.writes.length ≤ k)) then
    { vf with prevHostWptr := dump.dump.wptr }
  else vf

theorem performed_subset : ∀ write ∈ dump.performed request, write ∈ dump.writes := by
  intro write member
  unfold performed at member
  split at member
  · exact member
  · exact List.mem_of_mem_take member

theorem performed_all (succeeds : dump.succeeds request = true) :
    dump.performed request = dump.writes := by
  unfold performed
  unfold Dump.succeeds at succeeds
  split
  · rfl
  · rename_i k fails
    rw [fails] at succeeds
    exact List.take_of_length_le (of_decide_eq_true succeeds)

@[simp] theorem vfAfter_startRptr (vf : VfCper) :
    (dump.vfAfter request vf).startRptr = vf.startRptr := by
  unfold vfAfter
  split <;> rfl

end Dump

section Chunks

variable (position secCnt recordLength secOffset checksum usedSize : Nat) (record : Hdr)
  (sec : Sec) (dump : CperDump)

@[simp] theorem telemetryHeader_length :
    (Chunk.telemetryHeader checksum usedSize).bytes.length = telemetryHeaderSize := by
  simp [Chunk.bytes, telemetryHeaderSize]

@[simp] theorem cperDump_length :
    (Chunk.cperDump dump).bytes.length = bufOffset - telemetryHeaderSize := by
  simp [Chunk.bytes, bufOffset]

@[simp] theorem hdr_length :
    (Chunk.hdr position record secCnt recordLength).bytes.length = hdrLen := by
  simp [Chunk.bytes, record.lead_length, record.severity_length, record.trail_length, hdrLen]

@[simp] theorem desc_length :
    (Chunk.desc position sec secOffset).bytes.length = secDescLen := by
  simp [Chunk.bytes, sec.revision_length, sec.kind_length, sec.text_length, secDescLen]

@[simp] theorem body_length : (Chunk.body position sec).bytes.length = sec.body.length := rfl

end Chunks

section Record

variable {position fbOffset : Nat}

def lengthWith (sections : List Sec) : Nat :=
  hdrLen + (sections.map fun sec => secDescLen + sec.body.length).sum

/-- The spans of some writes, up to their order, lie one behind the other. -/
def Tiles (writes : List Write) (a b : Nat) : Prop :=
  ∃ sorted : List Write, sorted.Perm writes ∧ Laid (· = ·) (sorted.map Write.span) a b

theorem Tiles.append {first second : List Write} {a b d : Nat} (left : Tiles first a b)
    (right : Tiles second b d) : Tiles (first ++ second) a d := by
  obtain ⟨sortedFirst, permFirst, laidFirst⟩ := left
  obtain ⟨sortedSecond, permSecond, laidSecond⟩ := right
  refine ⟨sortedFirst ++ sortedSecond, permFirst.append permSecond, ?_⟩
  rw [List.map_append]
  exact (laid_append eq_nearness).mpr ⟨b, laidFirst, laidSecond⟩

theorem Tiles.of_perm {writes other : List Write} {a b : Nat} (tiles : Tiles writes a b)
    (perm : writes.Perm other) : Tiles other a b := by
  obtain ⟨sorted, same, laid⟩ := tiles
  exact ⟨sorted, same.trans perm, laid⟩

theorem Tiles.nil (a : Nat) : Tiles [] a a := ⟨[], .refl _, rfl⟩

theorem Tiles.single {write : Write} {a b : Nat} (start : write.offset = a)
    (ends : a + write.chunk.bytes.length = b) : Tiles [write] a b := by
  refine ⟨[write], .refl _, start.symm, ?_⟩
  show write.offset + write.chunk.bytes.length = b
  rw [start, ends]

theorem Tiles.bounds {writes : List Write} {a b : Nat} (tiles : Tiles writes a b) {write : Write}
    (member : write ∈ writes) :
    a ≤ write.offset ∧ write.offset + write.chunk.bytes.length ≤ b := by
  obtain ⟨sorted, perm, laid⟩ := tiles
  exact laid.bounds eq_nearness (List.mem_map_of_mem (perm.mem_iff.mpr member))

theorem patchSections_tiles (sections : List Sec) (writeCount nextSecOffset : Nat) :
    ∃ descs bodies : List Write,
      (patchSections position fbOffset sections writeCount nextSecOffset).1.Perm
        (descs ++ bodies) ∧
      Tiles descs (fbOffset + hdrLen + secDescLen * writeCount)
        (fbOffset + hdrLen + secDescLen * (writeCount + sections.length)) ∧
      Tiles bodies (fbOffset + nextSecOffset)
        (fbOffset + (patchSections position fbOffset sections writeCount nextSecOffset).2) ∧
      (patchSections position fbOffset sections writeCount nextSecOffset).2 =
        nextSecOffset + (sections.map fun sec => sec.body.length).sum := by
  induction sections generalizing writeCount nextSecOffset with
  | nil => exact ⟨[], [], .refl _, .nil _, .nil _, rfl⟩
  | cons sec rest ih =>
    obtain ⟨descs, bodies, perm, tilesDescs, tilesBodies, ends⟩ :=
      ih (writeCount + 1) (nextSecOffset + sec.body.length)
    let body : Write := { offset := fbOffset + nextSecOffset, chunk := .body position sec }
    let desc : Write :=
      { offset := fbOffset + hdrLen + secDescLen * writeCount
        chunk := .desc position sec nextSecOffset }
    refine ⟨desc :: descs, body :: bodies, ?_, ?_, ?_, ?_⟩
    · have swapped : (body :: desc :: (descs ++ bodies)).Perm
          (desc :: body :: (descs ++ bodies)) := .swap _ _ _
      have moved : (desc :: body :: (descs ++ bodies)).Perm (desc :: (descs ++ body :: bodies)) :=
        List.perm_middle.symm.cons _
      exact ((perm.cons _).cons _).trans (swapped.trans moved)
    · rw [List.length_cons, Nat.add_comm rest.length, ← Nat.add_assoc]
      have here : Tiles [desc] (fbOffset + hdrLen + secDescLen * writeCount)
          (fbOffset + hdrLen + secDescLen * (writeCount + 1)) := by
        apply Tiles.single rfl
        simp only [desc, desc_length]
        rw [Nat.mul_succ, ← Nat.add_assoc]
      exact here.append tilesDescs
    · have here : Tiles [body] (fbOffset + nextSecOffset)
          (fbOffset + (nextSecOffset + sec.body.length)) := by
        apply Tiles.single rfl
        simp only [body, body_length]
        omega
      exact here.append tilesBodies
    · show (patchSections position fbOffset rest _ _).2 = _
      rw [ends, List.map_cons, List.sum_cons]
      omega

theorem lengthWith_eq (sections : List Sec) : lengthWith sections =
    hdrLen + secDescLen * sections.length + (sections.map fun sec => sec.body.length).sum := by
  unfold lengthWith
  induction sections with
  | nil => rfl
  | cons sec rest ih =>
    rw [List.map_cons, List.sum_cons, List.map_cons, List.sum_cons, List.length_cons,
      Nat.mul_succ]
    omega

theorem patchToVf_tiles (record : Hdr) (sections : List Sec) :
    Tiles (patchToVf position fbOffset record sections).1 fbOffset
      (patchToVf position fbOffset record sections).2 := by
  unfold patchToVf
  split
  · exact .nil _
  · obtain ⟨descs, bodies, perm, tilesDescs, tilesBodies, -⟩ :=
      @patchSections_tiles position fbOffset sections 0 (hdrLen + secDescLen * sections.length)
    let header : Write :=
      { offset := fbOffset
        chunk := .hdr position record sections.length
          (patchSections position fbOffset sections 0
            (hdrLen + secDescLen * sections.length)).2 }
    have tilesHeader : Tiles [header] fbOffset (fbOffset + hdrLen) := by
      apply Tiles.single rfl
      simp only [header, hdr_length]
    rw [Nat.mul_zero, Nat.add_zero, Nat.zero_add] at tilesDescs
    rw [← Nat.add_assoc] at tilesBodies
    apply (tilesHeader.append (tilesDescs.append tilesBodies)).of_perm
    exact (List.perm_append_comm).trans (perm.symm.append_right _)

theorem patchToVf_end (record : Hdr) {sections : List Sec} (some_ : sections ≠ []) :
    (patchToVf position fbOffset record sections).2 = fbOffset + lengthWith sections := by
  have filled : sections.length ≠ 0 := fun none => some_ (List.length_eq_zero_iff.mp none)
  obtain ⟨-, -, -, -, -, ends⟩ :=
    @patchSections_tiles position fbOffset sections 0 (hdrLen + secDescLen * sections.length)
  rw [patchToVf, if_neg filled]
  show fbOffset + (patchSections position fbOffset sections 0 _).2 = _
  rw [ends, lengthWith_eq]

@[simp] theorem patchToVf_nil (record : Hdr) :
    patchToVf position fbOffset record [] = ([], fbOffset) := rfl

variable (allowed : Hdr → Nat → Bool)

theorem allowedSections_sublist (record : Hdr) :
    (allowedSections allowed record).Sublist record.sections := by
  have kept : (record.sections.zipIdx.filter fun entry => allowed record entry.2).Sublist
      record.sections.zipIdx := List.filter_sublist
  have mapped := kept.map Prod.fst
  rwa [List.zipIdx_map_fst] at mapped

theorem lengthWith_allowed (record : Hdr) :
    lengthWith (allowedSections allowed record) ≤ record.recordLength := by
  rw [record.recordLength_eq, lengthWith]
  apply Nat.add_le_add_left
  exact ((allowedSections_sublist allowed record).map _).sum_le_sum fun _ _ => Nat.zero_le _

theorem patchToVf_bounds (record : Hdr) :
    fbOffset ≤ (patchToVf position fbOffset record (allowedSections allowed record)).2 ∧
      (patchToVf position fbOffset record (allowedSections allowed record)).2 ≤
        fbOffset + record.recordLength := by
  have short := lengthWith_allowed allowed record
  by_cases none : allowedSections allowed record = []
  · rw [none, patchToVf_nil]
    exact ⟨Nat.le_refl _, Nat.le_add_right _ _⟩
  · rw [patchToVf_end record none]
    omega

end Record

def shown (writes : List Write) : List (Nat × Hdr) :=
  writes.filterMap fun write =>
    match write.chunk with
    | .hdr position record _ _ => some (position, record)
    | _ => none

/-- What a VF may be shown: of records from a position on, the sections that its filter
allows, under a header that counts just these. -/
def Permitted (c : Ring Hdr) (allowed : Hdr → Nat → Bool) (lowest : Nat) : Chunk → Prop
  | .telemetryHeader _ _ => True
  | .cperDump _ => True
  | .hdr position record secCnt recordLength =>
    lowest ≤ position ∧ c.retained position = some record ∧
      secCnt = (allowedSections allowed record).length ∧
      recordLength = lengthWith (allowedSections allowed record)
  | .desc position sec _ => lowest ≤ position ∧
      ∃ record, c.retained position = some record ∧ sec ∈ allowedSections allowed record
  | .body position sec => lowest ≤ position ∧
      ∃ record, c.retained position = some record ∧ sec ∈ allowedSections allowed record

section Loop

theorem patchSections_chunks {position fbOffset : Nat} (sections : List Sec)
    (writeCount nextSecOffset : Nat) :
    ∀ write ∈ (patchSections position fbOffset sections writeCount nextSecOffset).1,
      (∃ sec ∈ sections, write.chunk = .body position sec) ∨
      ∃ sec ∈ sections, ∃ secOffset, write.chunk = .desc position sec secOffset := by
  induction sections generalizing writeCount nextSecOffset with
  | nil => simp [patchSections]
  | cons sec rest ih =>
    intro write member
    simp only [patchSections, List.mem_cons] at member
    obtain rfl | rfl | later := member
    · exact Or.inl ⟨sec, List.mem_cons_self, rfl⟩
    · exact Or.inr ⟨sec, List.mem_cons_self, _, rfl⟩
    · obtain ⟨other, inside, same⟩ | ⟨other, inside, same⟩ := ih _ _ write later
      · exact Or.inl ⟨other, List.mem_cons_of_mem _ inside, same⟩
      · exact Or.inr ⟨other, List.mem_cons_of_mem _ inside, same⟩

theorem shown_append (first second : List Write) :
    shown (first ++ second) = shown first ++ shown second := List.filterMap_append

theorem shown_patchSections {position fbOffset : Nat} (sections : List Sec)
    (writeCount nextSecOffset : Nat) :
    shown (patchSections position fbOffset sections writeCount nextSecOffset).1 = [] := by
  apply List.filterMap_eq_nil_iff.mpr
  intro write member
  obtain ⟨sec, -, same⟩ | ⟨sec, -, secOffset, same⟩ :=
    patchSections_chunks sections writeCount nextSecOffset write member
  · rw [same]
  · rw [same]

theorem shown_patchToVf {position fbOffset : Nat} (record : Hdr) (sections : List Sec) :
    shown (patchToVf position fbOffset record sections).1 =
      if sections = [] then [] else [(position, record)] := by
  by_cases none : sections = []
  · rw [none, patchToVf_nil, if_pos rfl]
    rfl
  · have filled : sections.length ≠ 0 := fun empty => none (List.length_eq_zero_iff.mp empty)
    rw [patchToVf, if_neg filled, if_neg none, shown_append, shown_patchSections]
    rfl

variable (c : Ring Hdr) (allowed : Hdr → Nat → Bool)

theorem patchToVf_permitted {position fbOffset lowest : Nat} {record : Hdr}
    (above : lowest ≤ position) (held : c.retained position = some record) :
    ∀ write ∈ (patchToVf position fbOffset record (allowedSections allowed record)).1,
      Permitted c allowed lowest write.chunk := by
  by_cases none : allowedSections allowed record = []
  · simp [none]
  · have length := @patchToVf_end position fbOffset record _ none
    have filled : (allowedSections allowed record).length ≠ 0 :=
      fun empty => none (List.length_eq_zero_iff.mp empty)
    intro write member
    rw [patchToVf, if_neg filled] at member length
    rcases List.mem_append.mp member with inSections | isHeader
    · obtain ⟨sec, inside, same⟩ | ⟨sec, inside, secOffset, same⟩ :=
        patchSections_chunks _ _ _ write inSections
      · rw [same]
        exact ⟨above, record, held, inside⟩
      · rw [same]
        exact ⟨above, record, held, inside⟩
    · obtain rfl := List.mem_singleton.mp isHeader
      refine ⟨above, held, rfl, ?_⟩
      simp only at length
      omega

variable (tableOffset : Nat)

theorem copyRecords_tiles (positions : List Nat) (fbOffset : Nat)
    (low : tableOffset ≤ fbOffset) (high : fbOffset ≤ tableOffset + tableSize) :
    Tiles (copyRecords c allowed tableOffset positions fbOffset).writes fbOffset
        (copyRecords c allowed tableOffset positions fbOffset).fbOffset ∧
      fbOffset ≤ (copyRecords c allowed tableOffset positions fbOffset).fbOffset ∧
      (copyRecords c allowed tableOffset positions fbOffset).fbOffset ≤
        tableOffset + tableSize := by
  induction positions generalizing fbOffset with
  | nil => exact ⟨.nil _, Nat.le_refl _, high⟩
  | cons rptr rest ih =>
    unfold copyRecords
    split
    · exact ih fbOffset low high
    · rename_i record here
      split
      · exact ih fbOffset low high
      · split
        · exact ⟨.nil _, Nat.le_refl _, high⟩
        · rename_i fits
          obtain ⟨grows, short⟩ :=
            @patchToVf_bounds rptr fbOffset allowed record
          obtain ⟨tiles, above, below⟩ := ih _ (low.trans grows) (by omega)
          exact ⟨(patchToVf_tiles record _).append tiles, grows.trans above, below⟩

theorem copyRecords_visits (positions : List Nat) (fbOffset : Nat) :
    ∃ gone, positions = gone ++ (copyRecords c allowed tableOffset positions fbOffset).left ∧
      (copyRecords c allowed tableOffset positions fbOffset).visited =
        gone.filterMap (fun p => (c.getRingEntry p).map fun record => (p, record)) ∧
      (copyRecords c allowed tableOffset positions fbOffset).count =
        (copyRecords c allowed tableOffset positions fbOffset).visited.length ∧
      shown (copyRecords c allowed tableOffset positions fbOffset).writes =
        (copyRecords c allowed tableOffset positions fbOffset).visited.filter
          fun entry => allowedSections allowed entry.2 ≠ [] := by
  induction positions generalizing fbOffset with
  | nil => exact ⟨[], rfl, rfl, rfl, rfl⟩
  | cons rptr rest ih =>
    unfold copyRecords
    split
    · rename_i empty
      obtain ⟨gone, splits, visited, count, shows⟩ := ih fbOffset
      refine ⟨rptr :: gone, ?_, ?_, count, shows⟩
      · rw [List.cons_append, ← splits]
      · rw [visited, List.filterMap_cons, empty]
        rfl
    · rename_i record here
      split
      · rename_i large
        have short := record.recordLength_le
        simp only [maxRecordLen, tableSize, bufOffset, telemetryHeaderSize] at short large
        omega
      · split
        · exact ⟨[], rfl, rfl, rfl, rfl⟩
        · obtain ⟨gone, splits, visited, count, shows⟩ :=
            ih (patchToVf rptr fbOffset record (allowedSections allowed record)).2
          refine ⟨rptr :: gone, ?_, ?_, ?_, ?_⟩
          · simp only
            rw [List.cons_append, ← splits]
          · simp only
            rw [visited, List.filterMap_cons, here]
            rfl
          · simp only
            rw [count, List.length_cons]
          · simp only
            rw [shown_append, shown_patchToVf, shows]
            by_cases none : allowedSections allowed record = []
            · simp [none]
            · simp [none]

theorem copyRecords_left (positions : List Nat) (fbOffset : Nat) :
    (copyRecords c allowed tableOffset positions fbOffset).left.length ≤ positions.length := by
  obtain ⟨gone, splits, -⟩ := copyRecords_visits c allowed tableOffset positions fbOffset
  have lengths := congrArg List.length splits
  rw [List.length_append] at lengths
  omega

theorem copyRecords_progress (rptr : Nat) (rest : List Nat) :
    (copyRecords c allowed tableOffset (rptr :: rest) (tableOffset + bufOffset)).left.length ≤
      rest.length := by
  have later := copyRecords_left c allowed tableOffset rest
  unfold copyRecords
  split
  · exact later _
  · rename_i record here
    split
    · exact later _
    · rename_i small
      rw [if_neg]
      · exact later _
      · simp only [tableSize, bufOffset, telemetryHeaderSize] at small ⊢
        omega

theorem copyRecords_permitted {lowest : Nat} (positions : List Nat) (fbOffset : Nat)
    (valid : ∀ p ∈ positions, lowest ≤ p ∧ c.getRingEntry p = c.retained p) :
    ∀ write ∈ (copyRecords c allowed tableOffset positions fbOffset).writes,
      Permitted c allowed lowest write.chunk := by
  induction positions generalizing fbOffset with
  | nil => simp [copyRecords]
  | cons rptr rest ih =>
    have validRest : ∀ p ∈ rest, lowest ≤ p ∧ c.getRingEntry p = c.retained p :=
      fun p member => valid p (List.mem_cons_of_mem _ member)
    obtain ⟨above, same⟩ := valid rptr List.mem_cons_self
    unfold copyRecords
    split
    · exact ih fbOffset validRest
    · rename_i record here
      split
      · exact ih fbOffset validRest
      · split
        · simp
        · intro write member
          rcases List.mem_append.mp member with inRecord | later
          · rw [same] at here
            exact patchToVf_permitted c allowed above here write inRecord
          · exact ih _ validRest write later

end Loop

end Cper
