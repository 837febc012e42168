import MxGpu.CperDump
import MxGpu.Transition

/- What a guest gets from its dumps, one by one and over a whole walk through the ring. -/
namespace Cper

open Tiling

/-- Every record up to the first one that no longer fits the table has a section that the VF
may see; `used` bytes of the table are taken. -/
def NoneEmpty (c : Ring Hdr) (allowed : Hdr → Nat → Bool) : List Nat → Nat → Prop
  | [], _ => True
  | p :: rest, used =>
    match c.getRingEntry p with
    | none => NoneEmpty c allowed rest used
    | some record =>
      used + record.recordLength ≤ tableSize →
        allowedSections allowed record ≠ [] ∧
          NoneEmpty c allowed rest (used + lengthWith (allowedSections allowed record))

/-- The records that a call reads: from the first valid position at or behind the requested
one. -/
def requested (c : Ring Hdr) (vf : VfCper) (request : Request) : List Nat :=
  c.positions (vf.startRptr + request.vfRptr)

/-- No record of a successful call is left without sections by the filter. -/
def AllShow (c : Ring Hdr) (vf : VfCper) (request : Request) : Prop :=
  (dumpCpers c vf request).succeeds request = true →
    NoneEmpty c request.allowed (requested c vf request) bufOffset

structure DumpSound (c : Ring Hdr) (vf : VfCper) (request : Request) : Prop where
  isolated : ∀ write ∈ (dumpCpers c vf request).performed request,
    Permitted c request.allowed vf.startRptr write.chunk
  inside : ∀ write ∈ (dumpCpers c vf request).performed request,
    vf.tableOffset ≤ write.offset ∧
      write.offset + write.chunk.bytes.length ≤ vf.tableOffset + tableSize
  counted : (dumpCpers c vf request).succeeds request = true →
    (dumpCpers c vf request).dump.count =
      (shown ((dumpCpers c vf request).performed request)).length
  accounted : (dumpCpers c vf request).succeeds request = true →
    ∃ content checksum usedSize,
    (dumpCpers c vf request).performed request =
        content ++ [{ offset := vf.tableOffset, chunk := .telemetryHeader checksum usedSize }] ∧
      Tiles content (vf.tableOffset + telemetryHeaderSize)
        (vf.tableOffset + telemetryHeaderSize + usedSize) ∧
      checksum = (content.map fun write => (write.chunk.bytes.map UInt8.toNat).sum).sum % 2 ^ 32
  overflow : ∀ p, vf.startRptr + request.vfRptr ≤ p →
    (p + c.maxCount < c.wptr ↔
      p < vf.startRptr + request.vfRptr + (dumpCpers c vf request).dump.overflowCount)
  more : (dumpCpers c vf request).dump.more = true ↔
    vf.startRptr + (dumpCpers c vf request).dump.wptr < c.wptr
  progress : (dumpCpers c vf request).dump.more = true →
    request.vfRptr < (dumpCpers c vf request).dump.wptr

section Checksum

theorem checksum_foldl (writes : List Write) (sum : Nat) :
    writes.foldl (fun checksum write => (checksum + msgChecksum write.chunk.bytes) % 2 ^ 32)
        (sum % 2 ^ 32) =
      (sum + (writes.map fun write => (write.chunk.bytes.map UInt8.toNat).sum).sum) % 2 ^ 32 := by
  induction writes generalizing sum with
  | nil => simp
  | cons write rest ih =>
    rw [List.foldl_cons, msgChecksum, ← Nat.add_mod, ih, List.map_cons, List.sum_cons,
      Nat.add_assoc]

theorem checksumOf_eq (writes : List Write) : checksumOf writes =
    (writes.map fun write => (write.chunk.bytes.map UInt8.toNat).sum).sum % 2 ^ 32 := by
  have total := checksum_foldl writes 0
  rwa [Nat.zero_add] at total

end Checksum

section Call

variable (c : Ring Hdr) (vf : VfCper) (request : Request)

theorem clampRptr_spec (start : vf.startRptr ≤ c.wptr) :
    (clampRptr c vf request.vfRptr).1 = c.moveToFirstValid (vf.startRptr + request.vfRptr) ∧
      ∀ p, vf.startRptr + request.vfRptr ≤ p →
        (p + c.maxCount < c.wptr ↔
          p < vf.startRptr + request.vfRptr + (clampRptr c vf request.vfRptr).2) := by
  simp only [clampRptr, if_pos start]
  by_cases beyond : request.vfRptr ≥ c.wptr - vf.startRptr
  · rw [if_pos beyond]
    refine ⟨?_, ?_⟩
    · unfold Ring.moveToFirstValid
      split
      · rfl
      · split <;> omega
    · intro p above
      simp only
      omega
  · rw [if_neg beyond]
    refine ⟨rfl, ?_⟩
    intro p above
    simp only
    unfold Ring.moveToFirstValid
    split
    · omega
    · split <;> omega

theorem copied_spec (start : vf.startRptr ≤ c.wptr) : ∃ k,
    k ≤ c.wptr - c.moveToFirstValid (vf.startRptr + request.vfRptr) ∧
    (c.moveToFirstValid (vf.startRptr + request.vfRptr) < c.wptr → 0 < k) ∧
    (dumpCpers c vf request).copied =
      copyRecords c request.allowed vf.tableOffset (requested c vf request)
        (vf.tableOffset + bufOffset) ∧
    (dumpCpers c vf request).copied.left.head?.getD c.wptr =
      c.moveToFirstValid (vf.startRptr + request.vfRptr) + k ∧
    (dumpCpers c vf request).copied.visited =
      (List.range' (c.moveToFirstValid (vf.startRptr + request.vfRptr)) k).filterMap
        fun p => (c.getRingEntry p).map fun record => (p, record) := by
  have bound := c.moveToFirstValid_le (vf.startRptr + request.vfRptr)
  have same : (dumpCpers c vf request).copied =
      copyRecords c request.allowed vf.tableOffset (requested c vf request)
        (vf.tableOffset + bufOffset) := by
    simp only [dumpCpers, requested, Ring.positions, (clampRptr_spec c vf request start).1]
  obtain ⟨gone, splits, visited, -, -⟩ := copyRecords_visits c request.allowed vf.tableOffset
    (requested c vf request) (vf.tableOffset + bufOffset)
  rw [← same] at splits visited
  have lengths := congrArg List.length splits
  rw [requested, Ring.positions, List.length_range', List.length_append] at lengths
  have goneEq : gone =
      List.range' (c.moveToFirstValid (vf.startRptr + request.vfRptr)) gone.length := by
    have taken := congrArg (List.take gone.length) splits
    rw [List.take_left, requested, Ring.positions,
      List.take_range'_of_length_ge (by omega)] at taken
    exact taken.symm
  have leftEq : (dumpCpers c vf request).copied.left =
      List.range' (c.moveToFirstValid (vf.startRptr + request.vfRptr) + gone.length)
        (dumpCpers c vf request).copied.left.length := by
    have dropped := congrArg (List.drop gone.length) splits
    rw [List.drop_left, requested, Ring.positions, List.drop_range', Nat.mul_one] at dropped
    rw [← dropped, List.length_range']
  refine ⟨gone.length, by omega, ?_, same, ?_, ?_⟩
  · intro more
    have progress := copyRecords_progress c request.allowed vf.tableOffset
      (c.moveToFirstValid (vf.startRptr + request.vfRptr))
      (List.range' (c.moveToFirstValid (vf.startRptr + request.vfRptr) + 1)
        (c.wptr - c.moveToFirstValid (vf.startRptr + request.vfRptr) - 1))
    rw [List.length_range', ← List.range'_succ, Nat.sub_add_cancel (by omega)] at progress
    rw [requested, Ring.positions] at same
    rw [← same] at progress
    omega
  · rw [leftEq, List.head?_range']
    split
    · rename_i none
      rw [Option.getD_none]
      omega
    · rfl
  · rw [visited, goneEq, List.length_range']

theorem dump_wptr (start : vf.startRptr ≤ c.wptr) (room : c.wptr < 2 ^ 64) :
    vf.startRptr + (dumpCpers c vf request).dump.wptr =
      (dumpCpers c vf request).copied.left.head?.getD c.wptr := by
  have bound := c.moveToFirstValid_le (vf.startRptr + request.vfRptr)
  obtain ⟨k, few, -, -, ends, -⟩ := copied_spec c vf request start
  have low : vf.startRptr ≤ (dumpCpers c vf request).copied.left.head?.getD c.wptr := by
    rw [ends]
    rcases Nat.lt_or_ge c.wptr (vf.startRptr + request.vfRptr) with beyond | within
    · have first : c.moveToFirstValid (vf.startRptr + request.vfRptr) = c.wptr := by
        rw [Ring.moveToFirstValid, if_pos beyond]
      omega
    · have above := c.le_moveToFirstValid within
      omega
  have high : (dumpCpers c vf request).copied.left.head?.getD c.wptr ≤ c.wptr := by
    omega
  have value : (dumpCpers c vf request).dump.wptr =
      ((dumpCpers c vf request).copied.left.head?.getD c.wptr + 2 ^ 64 - vf.startRptr) % 2 ^ 64 :=
    rfl
  rw [value]
  omega

theorem copyRecords_noneEmpty (allowed : Hdr → Nat → Bool) (tableOffset : Nat)
    (positions : List Nat) (fbOffset : Nat) (low : tableOffset ≤ fbOffset) :
    (∀ entry ∈ (copyRecords c allowed tableOffset positions fbOffset).visited,
        allowedSections allowed entry.2 ≠ []) ↔
      NoneEmpty c allowed positions (fbOffset - tableOffset) := by
  induction positions generalizing fbOffset with
  | nil => simp [copyRecords, NoneEmpty]
  | cons p rest ih =>
    cases here : c.getRingEntry p with
    | none =>
      simp only [copyRecords, NoneEmpty, here]
      exact ih fbOffset low
    | some record =>
      have short := record.recordLength_le
      have small : ¬ record.recordLength > tableSize - bufOffset := by
        simp only [maxRecordLen, tableSize, bufOffset, telemetryHeaderSize] at *
        omega
      simp only [copyRecords, NoneEmpty, here, if_neg small]
      by_cases full : fbOffset - tableOffset + record.recordLength > tableSize
      · rw [if_pos full]
        simp [full]
      · rw [if_neg full]
        have room : fbOffset - tableOffset + record.recordLength ≤ tableSize := by omega
        simp only [room, true_implies, List.mem_cons, forall_eq_or_imp]
        apply and_congr_right
        intro some_
        rw [patchToVf_end record some_, ih _ (by omega), Nat.sub_add_comm low]

def usedSize : Nat :=
  ((dumpCpers c vf request).copied.fbOffset - telemetryHeaderSize - vf.tableOffset) % 2 ^ 32

def fixedWrite : Write :=
  { offset := vf.tableOffset + telemetryHeaderSize
    chunk := .cperDump (dumpCpers c vf request).dump }

theorem dumpCpers_writes : (dumpCpers c vf request).writes =
    ((dumpCpers c vf request).copied.writes ++ [fixedWrite c vf request]) ++
      [{ offset := vf.tableOffset
         chunk := .telemetryHeader
          (checksumOf ((dumpCpers c vf request).copied.writes ++ [fixedWrite c vf request]))
          (usedSize c vf request) }] := by
  rw [List.append_assoc]
  rfl

theorem shown_copied (start : vf.startRptr ≤ c.wptr) :
    (dumpCpers c vf request).dump.count = (dumpCpers c vf request).copied.visited.length ∧
      shown (dumpCpers c vf request).writes = (dumpCpers c vf request).copied.visited.filter
        fun entry => allowedSections request.allowed entry.2 ≠ [] := by
  obtain ⟨k, -, -, same, -, -⟩ := copied_spec c vf request start
  obtain ⟨gone, -, -, count, shows⟩ := copyRecords_visits c request.allowed vf.tableOffset
    (requested c vf request) (vf.tableOffset + bufOffset)
  rw [← same] at count shows
  refine ⟨count, ?_⟩
  rw [dumpCpers_writes, shown_append, shown_append, shows]
  simp [shown, fixedWrite]

theorem dumpCpers_isolated (start : vf.startRptr ≤ c.wptr) :
    ∀ write ∈ (dumpCpers c vf request).writes,
      Permitted c request.allowed vf.startRptr write.chunk := by
  obtain ⟨k, -, -, same, -, -⟩ := copied_spec c vf request start
  intro write member
  simp only [dumpCpers_writes, List.append_assoc, List.mem_append, List.mem_singleton] at member
  rcases member with inRecords | rfl | rfl
  · rw [same] at inRecords
    apply copyRecords_permitted c request.allowed vf.tableOffset _ _ _ write inRecords
    intro p inside
    refine ⟨?_, c.getRingEntry_positions inside⟩
    obtain ⟨above, below⟩ := c.mem_positions.mp inside
    rcases Nat.lt_or_ge c.wptr (vf.startRptr + request.vfRptr) with beyond | within
    · rw [Ring.moveToFirstValid, if_pos beyond] at above
      omega
    · have first := c.le_moveToFirstValid within
      omega
  · trivial
  · trivial

theorem copied_tiles (start : vf.startRptr ≤ c.wptr) :
    Tiles (dumpCpers c vf request).copied.writes (vf.tableOffset + bufOffset)
        (dumpCpers c vf request).copied.fbOffset ∧
      vf.tableOffset + bufOffset ≤ (dumpCpers c vf request).copied.fbOffset ∧
      (dumpCpers c vf request).copied.fbOffset ≤ vf.tableOffset + tableSize := by
  obtain ⟨k, -, -, same, -, -⟩ := copied_spec c vf request start
  rw [same]
  apply copyRecords_tiles
  · omega
  · exact Nat.add_le_add_left (by decide) _

theorem dumpCpers_inside (start : vf.startRptr ≤ c.wptr) :
    ∀ write ∈ (dumpCpers c vf request).writes,
      vf.tableOffset ≤ write.offset ∧
        write.offset + write.chunk.bytes.length ≤ vf.tableOffset + tableSize := by
  obtain ⟨tiles, -, below⟩ := copied_tiles c vf request start
  intro write member
  simp only [dumpCpers_writes, List.append_assoc, List.mem_append, List.mem_singleton] at member
  rcases member with inRecords | rfl | rfl
  · have bounds := tiles.bounds inRecords
    omega
  · simp only [fixedWrite, cperDump_length, bufOffset, telemetryHeaderSize, tableSize]
    omega
  · simp only [telemetryHeader_length, telemetryHeaderSize, tableSize]
    omega

theorem dumpCpers_accounted (start : vf.startRptr ≤ c.wptr) :
    ∃ content checksum usedSize,
      (dumpCpers c vf request).writes =
          content ++ [{ offset := vf.tableOffset, chunk := .telemetryHeader checksum usedSize }] ∧
        Tiles content (vf.tableOffset + telemetryHeaderSize)
          (vf.tableOffset + telemetryHeaderSize + usedSize) ∧
        checksum =
          (content.map fun write => (write.chunk.bytes.map UInt8.toNat).sum).sum % 2 ^ 32 := by
  obtain ⟨tiles, above, below⟩ := copied_tiles c vf request start
  have tilesFixed : Tiles [fixedWrite c vf request] (vf.tableOffset + telemetryHeaderSize)
      (vf.tableOffset + bufOffset) := by
    apply Tiles.single rfl
    simp only [fixedWrite, cperDump_length, bufOffset]
    omega
  have used : vf.tableOffset + telemetryHeaderSize + usedSize c vf request =
      (dumpCpers c vf request).copied.fbOffset := by
    simp only [usedSize, bufOffset, telemetryHeaderSize, tableSize] at *
    omega
  refine ⟨_, _, usedSize c vf request, dumpCpers_writes c vf request, ?_, checksumOf_eq _⟩
  rw [used]
  exact (tilesFixed.append tiles).of_perm List.perm_append_comm

theorem dumpCpers_sound (start : vf.startRptr ≤ c.wptr) (room : c.wptr < 2 ^ 64) :
    DumpSound c vf request ↔ AllShow c vf request := by
  obtain ⟨count, shows⟩ := shown_copied c vf request start
  obtain ⟨k, few, progress, same, ends, -⟩ := copied_spec c vf request start
  have next := dump_wptr c vf request start room
  have counted : (dumpCpers c vf request).dump.count =
      (shown (dumpCpers c vf request).writes).length ↔
        NoneEmpty c request.allowed (requested c vf request) bufOffset := by
    have all := copyRecords_noneEmpty c request.allowed vf.tableOffset (requested c vf request)
      (vf.tableOffset + bufOffset) (Nat.le_add_right _ _)
    rw [Nat.add_sub_cancel_left, ← same] at all
    rw [← all, count, shows, eq_comm, List.length_filter_eq_length_iff]
    simp
  constructor
  · intro sound succeeds
    apply counted.mp
    have here := sound.counted succeeds
    rwa [Dump.performed_all _ _ succeeds] at here
  · intro noneEmpty
    have more : (dumpCpers c vf request).dump.more = true ↔
        vf.startRptr + (dumpCpers c vf request).dump.wptr < c.wptr := by
      have value : (dumpCpers c vf request).dump.more =
          decide ((dumpCpers c vf request).copied.left.head?.getD c.wptr ≠ c.wptr) := rfl
      rw [value, decide_eq_true_iff, next, ends]
      have bound := c.moveToFirstValid_le (vf.startRptr + request.vfRptr)
      omega
    refine ⟨?_, ?_, ?_, ?_, (clampRptr_spec c vf request start).2, more, ?_⟩
    · intro write member
      exact dumpCpers_isolated c vf request start write
        (Dump.performed_subset _ _ write member)
    · intro write member
      exact dumpCpers_inside c vf request start write (Dump.performed_subset _ _ write member)
    · intro succeeds
      rw [Dump.performed_all _ _ succeeds]
      exact counted.mpr (noneEmpty succeeds)
    · intro succeeds
      rw [Dump.performed_all _ _ succeeds]
      exact dumpCpers_accounted c vf request start
    · intro continues
      have behind := more.mp continues
      have within : vf.startRptr + request.vfRptr ≤ c.wptr := by
        by_contra beyond
        rw [next, ends, Ring.moveToFirstValid, if_pos (by omega)] at behind
        omega
      have first := c.le_moveToFirstValid within
      have positive : 0 < k := by
        apply progress
        omega
      omega

end Call

end Cper
